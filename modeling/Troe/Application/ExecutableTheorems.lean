import Troe.Application.Executable

/-!
# Layout safety of accepted executables

Whatever bytes the parser accepts, the plan it returns describes segments that do not overlap and
never combine writing with execution, payloads that tile the artifact, relocations that stay inside
one segment, and address ranges around the image that are disjoint and never wrap. Each phase of the
parser has one lemma that says what its success means; `LoadPlan.Safe` collects them.
-/

namespace Troe.Application

open Lib
open RelativeRelocation (ofRecord)

variable {abiMinor span stop imageBase imageEnd value : ℕ} {limits : ApplicationLimits}
  {bytes record artifact : Bytes} {header : ParsedHeader} {segments : List LoadSegment}
  {extents : List (ℕ × ℕ)} {previous next : Option ℕ} {placement : LoadPlacement}

/-! ## Header -/

/-- What an accepted header says: the tables follow one another, and the requests are within the
limits. -/
structure ParsedHeader.WellFormed (header : ParsedHeader) (artifactLen : ℕ)
    (limits : ApplicationLimits) (format : HeaderFormat) : Prop where
  recordsOffset : header.recordsOffset = format.headerBytes
  relocationsOffset :
    header.relocationsOffset = header.recordsOffset + header.recordCount * loadRecordBytes
  payloadOffset :
    header.payloadOffset = header.relocationsOffset + header.relocationCount * relocationRecordBytes
  payload_le : header.payloadOffset ≤ artifactLen
  recordCount_pos : 0 < header.recordCount
  recordCount_le : header.recordCount ≤ maxLoadRecords
  span_pos : 0 < header.imageSpanBytes
  span_le : header.imageSpanBytes ≤ limits.maximumImageSpanBytes
  span_aligned : imageAlignment ∣ header.imageSpanBytes
  stackPages_ge : limits.minimumStackPages ≤ header.stackPages
  stackPages_le : header.stackPages ≤ limits.maximumStackPages
  heapPages_le : header.heapPages ≤ limits.heapPages

theorem parseImageSpan_ok {header : Bytes} (h : parseImageSpan header abiMinor limits = .ok span) :
    0 < span ∧ span ≤ limits.maximumImageSpanBytes ∧ imageAlignment ∣ span := by
  simp only [parseImageSpan, ok_rules] at h
  obtain ⟨pages, -, bytes, -, -, hchecked, h⟩ := h
  cases h
  push Not at hchecked
  exact ⟨Nat.pos_of_ne_zero hchecked.1, hchecked.2.1, hchecked.2.2⟩

theorem wellFormed_of_parseHeaderForFormat {artifactLen supported : ℕ}
    {target : Target} {format : HeaderFormat}
    (h : parseHeaderForFormat bytes artifactLen target supported limits format = .ok header) :
    header.WellFormed artifactLen limits format := by
  simp only [parseHeaderForFormat, ok_rules] at h
  obtain ⟨raw, -, ⟨target', minor⟩, -, span, hspan, h⟩ := h
  obtain ⟨hpos, hle, haligned⟩ := parseImageSpan_ok hspan
  simp only [parseHeaderTables, ok_rules] at h
  obtain ⟨-, -, count, -, -, hcount, records, -, payload, -, relocations, -, relocationCount, -,
    -, -, _, ⟨-, rfl⟩, _, ⟨-, rfl⟩, _, ⟨-, rfl⟩, _, ⟨-, rfl⟩, -, htables, entry, -, stack, -, heap, -,
    -, hstack, -, hheap, h⟩ := h
  cases h
  push Not at hcount htables hstack hheap
  obtain ⟨hrecords, hrelocations, hpayload, hend⟩ := htables
  exact {
    recordsOffset := hrecords
    relocationsOffset := hrelocations
    payloadOffset := hpayload
    payload_le := hend
    recordCount_pos := Nat.pos_of_ne_zero hcount.1
    recordCount_le := hcount.2.2
    span_pos := hpos
    span_le := hle
    span_aligned := haligned
    stackPages_ge := hstack.1
    stackPages_le := hstack.2
    heapPages_le := hheap }

/-! ## Segments -/

/-- What one accepted load record says about its segment. -/
structure LoadSegment.Valid (segment : LoadSegment) (artifact : Bytes) (imageBase span : ℕ) :
    Prop where
  imageBase_eq : segment.imageBase = imageBase
  offset_aligned : pageSize ∣ segment.imageOffset
  memory_aligned : pageSize ∣ segment.memoryBytes
  memory_pos : 0 < segment.memoryBytes
  file_le : segment.fileByteCount ≤ segment.memoryBytes
  inside : segment.imageEnd ≤ span
  address_lt : imageBase + segment.imageEnd < 2 ^ 64
  payload : slice artifact segment.fileOffset segment.fileByteCount = some segment.fileBytes

/-- Payloads that follow one another from `start` up to `stop` without a gap. -/
def Tiles : ℕ → List LoadSegment → ℕ → Prop
  | start, [], stop => start = stop
  | start, segment :: segments, stop =>
    segment.fileOffset = start ∧ Tiles (start + segment.fileByteCount) segments stop

theorem Tiles.concat {start : ℕ} {segment : LoadSegment}
    (h : Tiles start segments stop) (hsegment : segment.fileOffset = stop) :
    Tiles start (segments ++ [segment]) (stop + segment.fileByteCount) := by
  induction segments generalizing start with
  | nil =>
    cases h
    exact ⟨hsegment, rfl⟩
  | cons first segments ih => exact ⟨h.1, ih h.2⟩

theorem parseFields_ok {fields : SegmentFields} (h : parseFields record = .ok fields) :
    pageSize ∣ fields.imageOffset ∧ pageSize ∣ fields.memoryBytes ∧ 0 < fields.memoryBytes ∧
      fields.fileByteCount ≤ fields.memoryBytes := by
  simp only [parseFields, ok_rules] at h
  obtain ⟨imageOffset, -, fileOffset, -, fileByteCount, -, memoryBytes, -, raw, -, permissions, -,
    -, -, -, hrange, h⟩ := h
  cases h
  push Not at hrange
  obtain ⟨hpos, hoffset, hmemory, hfile⟩ := hrange
  exact ⟨hoffset, hmemory, Nat.pos_of_ne_zero hpos, hfile⟩

theorem parseRecord_ok {expected previous : ℕ} {hasPredecessor : Bool} {parsed : ParsedRecord}
    (h : parseRecord artifact record expected previous hasPredecessor span imageBase = .ok parsed) :
    parsed.segment.Valid artifact imageBase span ∧ parsed.imageEnd = parsed.segment.imageEnd ∧
      parsed.segment.fileOffset = expected ∧
      parsed.fileEnd = expected + parsed.segment.fileByteCount ∧
      (hasPredecessor = true → previous ≤ parsed.segment.imageOffset) := by
  simp only [parseRecord, ok_rules] at h
  obtain ⟨fields, hfields, imageEnd, ⟨-, rfl⟩, _, ⟨haddress, -⟩, -, hpredecessor, -, hspan, -, hfile,
    fileEnd, ⟨-, rfl⟩, payload, hpayload, h⟩ := h
  cases h
  obtain ⟨hoffset, hmemory, hpos, hle⟩ := parseFields_ok hfields
  push Not at hpredecessor hspan hfile
  refine ⟨⟨rfl, hoffset, hmemory, hpos, hle, hspan, haddress, hpayload⟩, rfl, hfile, ?_, hpredecessor⟩
  rw [hfile]

theorem entryInside_ok {entry imageOffset : ℕ} {permissions : SegmentPermissions}
    (h : entryInside entry permissions imageOffset imageEnd = .ok true) :
    permissions.executable ∧ imageOffset ≤ entry ∧ entry < imageEnd := by
  unfold entryInside at h
  split at h
  case isTrue hexecutable =>
    simp only [ok_rules] at h
    obtain ⟨entryEnd, ⟨-, rfl⟩, h⟩ := h
    have hinside := of_decide_eq_true (Except.ok.inj h)
    exact ⟨hexecutable, hinside.1, hinside.2⟩
  case isFalse => cases h

/-- What the loop over the load records has established after some of them. -/
structure ScanInv (artifact : Bytes) (header : ParsedHeader) (imageBase : ℕ)
    (scan : SegmentScan LoadSegment) : Prop where
  valid : ∀ segment ∈ scan.segments, segment.Valid artifact imageBase header.imageSpanBytes
  ordered : scan.segments.Pairwise fun a b => a.imageEnd ≤ b.imageOffset
  before : ∀ segment ∈ scan.segments, segment.imageEnd ≤ scan.previousImageEnd
  tiles : Tiles header.payloadOffset scan.segments scan.expectedFileOffset
  pages : scan.imagePages = (scan.segments.map fun segment => segment.memoryBytes / pageSize).sum
  entry : scan.entryIsExecutable = true → ∃ segment ∈ scan.segments,
    segment.permissions.executable ∧ segment.imageOffset ≤ header.entryOffset ∧
      header.entryOffset < segment.imageEnd

theorem ScanInv.start (artifact : Bytes) (header : ParsedHeader) (imageBase : ℕ) :
    ScanInv artifact header imageBase (.start header) where
  valid := by simp [SegmentScan.start]
  ordered := .nil
  before := by simp [SegmentScan.start]
  tiles := rfl
  pages := rfl
  entry := by simp [SegmentScan.start]

theorem ScanInv.step {index : ℕ}
    {scan scan' : SegmentScan LoadSegment} (hinv : ScanInv artifact header imageBase scan)
    (hindex : scan.segments.length = index)
    (h : scanSegment artifact header imageBase scan index = .ok scan') :
    ScanInv artifact header imageBase scan' ∧ scan'.segments.length = index + 1 := by
  simp only [scanSegment, ok_rules] at h
  obtain ⟨record, -, parsed, hparsed, pages, ⟨-, rfl⟩, inside, hentry, h⟩ := h
  cases h
  obtain ⟨hvalid, hend, hfile, hfileEnd, hpredecessor⟩ := parseRecord_ok hparsed
  -- A predecessor exists exactly when the list of segments is not empty.
  have hafter : ∀ segment ∈ scan.segments, segment.imageEnd ≤ parsed.segment.imageOffset := by
    intro segment hmem
    have hnonempty : index ≠ 0 := by
      have := List.length_pos_of_mem hmem
      omega
    exact (hinv.before segment hmem).trans (hpredecessor (by simpa using hnonempty))
  refine ⟨?_, by simp [hindex]⟩
  constructor
  case valid =>
    intro segment hmem
    obtain hmem | hmem := List.mem_append.mp hmem
    · exact hinv.valid segment hmem
    · rw [List.mem_singleton.mp hmem]
      exact hvalid
  case ordered =>
    refine List.pairwise_append.mpr ⟨hinv.ordered, List.pairwise_singleton _ _, ?_⟩
    intro a ha b hb
    rw [List.mem_singleton.mp hb]
    exact hafter a ha
  case before =>
    intro segment hmem
    rw [hend]
    obtain hmem | hmem := List.mem_append.mp hmem
    · exact (hafter segment hmem).trans (Nat.le_add_right _ _)
    · rw [List.mem_singleton.mp hmem]
  case tiles =>
    rw [hfileEnd]
    exact hinv.tiles.concat hfile
  case pages =>
    simp [hinv.pages]
  case entry =>
    intro hseen
    obtain hseen | rfl := Bool.or_eq_true_iff.mp hseen
    · obtain ⟨segment, hmem, hsegment⟩ := hinv.entry hseen
      exact ⟨segment, List.mem_append_left _ hmem, hsegment⟩
    · rw [hend] at hentry
      exact ⟨parsed.segment, by simp, entryInside_ok hentry⟩

/-- What `parse_segments` guarantees. -/
theorem parseSegments_ok {imagePages : ℕ}
    (h : parseSegments artifact header imageBase = .ok (segments, imagePages)) :
    ∃ scan, ScanInv artifact header imageBase scan ∧ scan.segments = segments ∧
      scan.expectedFileOffset = artifact.length ∧ scan.entryIsExecutable = true := by
  simp only [parseSegments, ok_rules] at h
  obtain ⟨scan, hscan, h⟩ := h
  simp only [finishScan, ok_rules] at h
  obtain ⟨-, hfile, -, -, -, hentry, -, -, h⟩ := h
  cases h
  -- The index of a turn is the number of segments read before it.
  have hrun : ScanInv artifact header imageBase scan ∧ scan.segments.length = header.recordCount := by
    refine foldlM_range_ok_induction
      (P := fun index scan => ScanInv artifact header imageBase scan ∧ scan.segments.length = index)
      hscan ⟨.start artifact header imageBase, rfl⟩ ?_
    rintro index scan scan' - ⟨hinv, hlength⟩ hstep
    exact hinv.step hlength hstep
  refine ⟨scan, hrun.1, rfl, ?_, ?_⟩
  · simpa using hfile
  · simpa using hentry

/-! ## Relocations -/

theorem readField_ok {width offset : ℕ} (h : readField width bytes offset = .ok value) :
    value = leValue ((bytes.drop offset).take width) := by
  rw [readField, okOr_eq_ok, readLe, Option.map_eq_some_iff] at h
  obtain ⟨field, hfield, rfl⟩ := h
  unfold slice at hfield
  split at hfield
  · rw [← Option.some.inj hfield]
  · cases hfield

theorem lt_of_foldlM_max {start : ℕ} (h : extents.foldlM (fun stop extent =>
      (checkedAdd 64 extent.1 extent.2).map fun segmentEnd => max stop segmentEnd) start = some stop)
    (hstart : start ≤ value) (hvalue : value < stop) :
    ∃ extent ∈ extents, value < extent.1 + extent.2 := by
  induction extents generalizing start with
  | nil =>
    cases h
    omega
  | cons extent extents ih =>
    rw [List.foldlM_cons, Option.bind_eq_bind, Option.bind_eq_some_iff] at h
    obtain ⟨next, hnext, hrest⟩ := h
    simp only [Option.map_eq_some_iff, ok_rules] at hnext
    by_cases hfirst : value < extent.1 + extent.2
    · exact ⟨extent, List.mem_cons_self, hfirst⟩
    · obtain ⟨found, hmem, hfound⟩ := ih hrest (by omega)
      exact ⟨found, List.mem_cons_of_mem _ hmem, hfound⟩

theorem targetInside_iff {targetOffset targetEnd : ℕ} :
    targetInside extents targetOffset targetEnd = true ↔
      ∃ extent ∈ extents, extent.1 ≤ targetOffset ∧ extent.1 + extent.2 < 2 ^ 64 ∧
        targetEnd ≤ extent.1 + extent.2 := by
  simp only [targetInside, List.any_eq_true, Bool.and_eq_true, decide_eq_true_eq,
    Option.any_eq_true, ok_rules]
  grind

/-- What one accepted relocation says: it comes after the one before, its target lies in one segment
and its value below the end of the image. -/
theorem checkRelocation_ok (h : checkRelocation extents imageEnd previous record = .ok next) :
    next = some (ofRecord record).targetOffset ∧
      (∀ target ∈ previous, target < (ofRecord record).targetOffset) ∧
      (ofRecord record).valueOffset < imageEnd ∧
      ∃ extent ∈ extents, extent.1 ≤ (ofRecord record).targetOffset ∧
        (ofRecord record).targetOffset + 8 ≤ extent.1 + extent.2 := by
  simp only [checkRelocation, ok_rules] at h
  obtain ⟨target, htarget, value, hvalue, targetEnd, ⟨-, rfl⟩, -, hchecked, h⟩ := h
  cases h
  obtain rfl : target = (ofRecord record).targetOffset := readField_ok htarget
  obtain rfl : value = (ofRecord record).valueOffset := readField_ok hvalue
  push Not at hchecked
  obtain ⟨hprevious, hvalue, hinside⟩ := hchecked
  obtain ⟨extent, hmem, hlow, -, hhigh⟩ := targetInside_iff.mp hinside
  refine ⟨rfl, ?_, hvalue, extent, hmem, hlow, hhigh⟩
  intro previousTarget hmem
  rw [Option.mem_def] at hmem
  simpa [hmem] using hprevious

/-- What the loop over the relocation records has established after some of them. -/
structure RelocationInv (extents : List (ℕ × ℕ)) (imageEnd : ℕ) (records : List Bytes)
    (previous : Option ℕ) : Prop where
  ordered : (records.map ofRecord).Pairwise fun a b =>
    a.targetOffset < b.targetOffset
  last : ∀ record ∈ records, ∃ target ∈ previous,
    (ofRecord record).targetOffset ≤ target
  inside : ∀ record ∈ records, (ofRecord record).valueOffset < imageEnd ∧
    ∃ extent ∈ extents, extent.1 ≤ (ofRecord record).targetOffset ∧
      (ofRecord record).targetOffset + 8 ≤ extent.1 + extent.2

theorem RelocationInv.step {records : List Bytes}
    (hinv : RelocationInv extents imageEnd records previous)
    (h : checkRelocation extents imageEnd previous record = .ok next) :
    RelocationInv extents imageEnd (records ++ [record]) next := by
  obtain ⟨rfl, hprevious, hvalue, hinside⟩ := checkRelocation_ok h
  have hafter : ∀ earlier ∈ records, (ofRecord earlier).targetOffset <
      (ofRecord record).targetOffset := by
    intro earlier hmem
    obtain ⟨target, htarget, hle⟩ := hinv.last earlier hmem
    exact hle.trans_lt (hprevious target htarget)
  constructor
  case ordered =>
    rw [List.map_append, List.pairwise_append]
    refine ⟨hinv.ordered, List.pairwise_singleton _ _, ?_⟩
    simpa using hafter
  case last =>
    intro earlier hmem
    refine ⟨_, rfl, ?_⟩
    obtain hmem | hmem := List.mem_append.mp hmem
    · exact (hafter earlier hmem).le
    · rw [List.mem_singleton.mp hmem]
  case inside =>
    intro earlier hmem
    obtain hmem | hmem := List.mem_append.mp hmem
    · exact hinv.inside earlier hmem
    · rw [List.mem_singleton.mp hmem]
      exact ⟨hvalue, hinside⟩

/-- What `parse_relocations` guarantees about the records it returns. -/
theorem parseRelocations_ok {records : Bytes}
    (h : parseRelocations artifact header segments = .ok records) :
    ∃ imageEnd previous, largestEnd (segments.map LoadSegment.extent) = some imageEnd ∧
      RelocationInv (segments.map LoadSegment.extent) imageEnd
        (chunksExact relocationRecordBytes records) previous := by
  simp only [parseRelocations, ok_rules] at h
  obtain ⟨_, ⟨-, rfl⟩, -, -, records', -, imageEnd, hend, previous, hloop, h⟩ := h
  cases h
  refine ⟨imageEnd, previous, hend, ?_⟩
  refine foldlM_ok_induction (P := RelocationInv (segments.map LoadSegment.extent) imageEnd) hloop
    ⟨.nil, by simp, by simp⟩ ?_
  exact fun _ _ _ _ hinv hstep => hinv.step hstep

/-! ## Layout -/

/-- A range of addresses, without its end. -/
structure Region where
  start : ℕ
  stop : ℕ

/-- The page at an address. -/
def Region.page (address : ℕ) : Region := ⟨address, address + pageSize⟩

/-- The address ranges of a plan in ascending order: the image window, the startup page, the private
message pages, the heap, and the stack between its guard pages. -/
def ApplicationLayout.regions (layout : ApplicationLayout) (imageBase span : ℕ) : List Region :=
  [⟨imageBase, imageBase + span⟩, .page layout.startupAddress] ++
    (layout.ipcAddresses.elim [] fun (transmit, receive) => [.page transmit, .page receive]) ++
    [⟨layout.heapAddress, layout.heapAddress + layout.heapBytes⟩, .page layout.lowerGuardAddress,
      ⟨layout.stackBottom, layout.stackTop⟩, .page layout.upperGuardAddress]

theorem guardAddresses_ok {heapAddress slot lower upper : ℕ}
    (h : guardAddresses abiMinor heapAddress slot limits placement = .ok (lower, upper)) :
    lower + pageSize + slot = upper := by
  unfold guardAddresses at h
  split at h
  · simp only [ok_rules] at h
    obtain ⟨_, -, low, ⟨-, hlow⟩, slotStart, ⟨-, hstart⟩, high, ⟨-, hhigh⟩, h⟩ := h
    cases h
    omega
  · simp only [ok_rules] at h
    obtain ⟨slotStart, ⟨hslot, hstart⟩, low, ⟨hpage, hlow⟩, h⟩ := h
    cases h
    omega

theorem ipcPages_eq (minor : ℕ) : ipcPages minor = 0 ∨ ipcPages minor = 2 := by
  unfold ipcPages
  split
  · exact .inr rfl
  · exact .inl rfl

/-- What `application_layout` guarantees when the stack request is within the limits. -/
theorem applicationLayout_ok {stackPages heapPages : ℕ} {layout : ApplicationLayout}
    (hstack : stackPages ≤ limits.maximumStackPages)
    (h : applicationLayout stackPages heapPages abiMinor span limits placement = .ok layout) :
    (∀ region ∈ layout.regions placement.imageBase span, region.start ≤ region.stop ∧
        region.stop ≤ userEnd) ∧
      (layout.regions placement.imageBase span).Pairwise fun a b => a.stop ≤ b.start := by
  simp only [applicationLayout, ok_rules] at h
  obtain ⟨-, -, _, ⟨-, rfl⟩, _, ⟨-, rfl⟩, _, ⟨-, rfl⟩, _, ⟨-, rfl⟩, ⟨lower, upper⟩, hguards, _,
    ⟨-, rfl⟩, _, ⟨-, rfl⟩, _, ⟨-, rfl⟩, _, ⟨-, rfl⟩, -, hplaced, h⟩ := h
  cases h
  have hslot := guardAddresses_ok hguards
  have hstackBytes : stackPages * pageSize ≤ limits.maximumStackPages * pageSize :=
    Nat.mul_le_mul_right _ hstack
  push Not at hplaced
  obtain ⟨hheap, huser⟩ := hplaced
  obtain hipc | hipc := ipcPages_eq abiMinor
  · simp only [ApplicationLayout.regions, Region.page, hipc]
    constructor <;> simp <;> omega
  · simp only [ApplicationLayout.regions, Region.page, hipc, pageSize] at *
    constructor <;> simp <;> omega

/-! ## Plan -/

/-- Everything a loader relies on when it maps a plan: the segments, the entry point, the payloads,
the relocations and the address ranges around the image. -/
structure LoadPlan.Safe (plan : LoadPlan) (artifact : Bytes) (header : ParsedHeader) : Prop where
  segments_valid :
    ∀ segment ∈ plan.segments, segment.Valid artifact plan.imageBase header.imageSpanBytes
  segments_ordered : plan.segments.Pairwise fun a b => a.imageEnd ≤ b.imageOffset
  segments_protected :
    ∀ segment ∈ plan.segments, ¬ (segment.permissions.writable ∧ segment.permissions.executable)
  entry_executable : ∃ segment ∈ plan.segments, segment.permissions.executable ∧
    segment.imageOffset ≤ plan.entryOffset ∧ plan.entryOffset < segment.imageEnd
  payloads_tile : Tiles header.payloadOffset plan.segments artifact.length
  relocations_ordered : plan.relocations.Pairwise fun a b => a.targetOffset < b.targetOffset
  relocations_inside : ∀ relocation ∈ plan.relocations,
    (∃ segment ∈ plan.segments, segment.imageOffset ≤ relocation.targetOffset ∧
      relocation.targetOffset + 8 ≤ segment.imageEnd) ∧
    ∃ segment ∈ plan.segments, relocation.valueOffset < segment.imageEnd
  regions_ordered :
    (plan.layout.regions plan.imageBase header.imageSpanBytes).Pairwise fun a b => a.stop ≤ b.start
  regions_proper : ∀ region ∈ plan.layout.regions plan.imageBase header.imageSpanBytes,
    region.start ≤ region.stop ∧ region.stop ≤ userEnd
  segment_addresses :
    ∀ segment ∈ plan.segments, segment.virtualAddress = plan.imageBase + segment.imageOffset
  entry_address : plan.entryAddress = plan.imageBase + plan.entryOffset

theorem LoadPlan.mem_relocations {plan : LoadPlan} {relocation : RelativeRelocation}
    (h : relocation ∈ plan.relocations) :
    ∃ record ∈ chunksExact relocationRecordBytes plan.relocationRecords,
      ofRecord record = relocation := by
  obtain ⟨record, hmem, hrecord⟩ := List.mem_map.mp h
  exact ⟨record, List.mem_of_mem_take hmem, hrecord⟩

/-- Every plan the parser returns is safe, for the span its header declares. -/
theorem safe_of_parseWithLimits {artifact : Bytes} {target : Target} {supported : ℕ}
    {limits : ApplicationLimits} {placement : LoadPlacement} {plan : LoadPlan}
    (h : parseWithLimits artifact target supported limits placement = .ok plan) :
    ∃ header, parseHeader artifact target supported limits = .ok header ∧
      header.WellFormed artifact.length limits .native ∧ plan.Safe artifact header := by
  simp only [parseWithLimits, ok_rules] at h
  obtain ⟨-, -, header, hheader, ⟨segments, imagePages⟩, hsegments, records, hrecords, charges, -,
    layout, hlayout, h⟩ := h
  cases h
  have hformed := wellFormed_of_parseHeaderForFormat hheader
  obtain ⟨scan, hscan, rfl, hend, hentry⟩ := parseSegments_ok hsegments
  obtain ⟨imageEnd, previous, hlargest, hrelocations⟩ := parseRelocations_ok hrecords
  obtain ⟨hproper, hordered⟩ := applicationLayout_ok hformed.stackPages_le hlayout
  obtain ⟨entrySegment, hentryMem, hexecutable, hentryLow, hentryHigh⟩ := hscan.entry hentry
  refine ⟨header, hheader, hformed, ?_⟩
  constructor
  case segments_valid => exact hscan.valid
  case segments_ordered => exact hscan.ordered
  case segments_protected =>
    exact fun segment _ => segment.permissions.not_writable_and_executable
  case entry_executable => exact ⟨entrySegment, hentryMem, hexecutable, hentryLow, hentryHigh⟩
  case payloads_tile =>
    rw [← hend]
    exact hscan.tiles
  case relocations_ordered =>
    have htake := hrelocations.ordered.sublist ((List.take_sublist header.relocationCount _).map _)
    exact htake
  case relocations_inside =>
    intro relocation hmem
    obtain ⟨record, hrecord, rfl⟩ := LoadPlan.mem_relocations hmem
    obtain ⟨hvalue, extent, hextent, hlow, hhigh⟩ := hrelocations.inside record hrecord
    obtain ⟨segment, hsegment, rfl⟩ := List.mem_map.mp hextent
    obtain ⟨_, hvalueExtent, hbelow⟩ := lt_of_foldlM_max hlargest (Nat.zero_le _) hvalue
    obtain ⟨holder, hholder, rfl⟩ := List.mem_map.mp hvalueExtent
    exact ⟨⟨segment, hsegment, hlow, hhigh⟩, holder, hholder, hbelow⟩
  case regions_ordered => exact hordered
  case regions_proper => exact hproper
  case segment_addresses =>
    intro segment hmem
    have hvalid := hscan.valid segment hmem
    have hlt := hvalid.address_lt
    rw [LoadSegment.virtualAddress, hvalid.imageBase_eq, Nat.mod_eq_of_lt]
    unfold LoadSegment.imageEnd at hlt
    omega
  case entry_address =>
    have hlt := (hscan.valid entrySegment hentryMem).address_lt
    rw [LoadPlan.entryAddress, Nat.mod_eq_of_lt]
    show placement.imageBase + header.entryOffset < 2 ^ 64
    omega

/-! ## A sample artifact -/

/-- The native header of an artifact for the first target, with the tables right after it. -/
def sampleHeader (abiMinor entryOffset recordCount spanPages stackPages heapPages relocationCount
    payloadBytes : ℕ) : Bytes :=
  let relocationsOffset := kexHeaderBytes + recordCount * loadRecordBytes
  let payloadOffset := relocationsOffset + relocationCount * relocationRecordBytes
  kexMagic ++ leBytes 2 containerMajor ++ leBytes 2 containerMinor ++ leBytes 2 1 ++
    leBytes 2 kexHeaderBytes ++ leBytes 2 loadRecordBytes ++ leBytes 2 abiMajor ++
    leBytes 2 abiMinor ++ leBytes 2 0 ++ leBytes 8 entryOffset ++ leBytes 2 recordCount ++
    leBytes 2 0 ++ leBytes 4 spanPages ++ leBytes 8 stackPages ++ leBytes 8 heapPages ++
    leBytes 4 kexHeaderBytes ++ leBytes 4 payloadOffset ++ leBytes 4 relocationsOffset ++
    leBytes 4 relocationCount ++ leBytes 2 relocationRecordBytes ++ leBytes 2 0 ++ leBytes 4 0 ++
    leBytes 8 (payloadOffset + payloadBytes) ++ leBytes 8 0

/-- One load record. -/
def sampleRecord (imageOffset fileOffset fileByteCount memoryBytes permissions : ℕ) : Bytes :=
  leBytes 8 imageOffset ++ leBytes 8 fileOffset ++ leBytes 8 fileByteCount ++
    leBytes 8 memoryBytes ++ leBytes 4 permissions ++ leBytes 4 0

/-- Code in the first page, data in the second, and one pointer in the data that refers to the
code. -/
def sampleArtifact : Bytes :=
  sampleHeader 3 1 2 512 4 1 1 12 ++ sampleRecord 0 192 4 4096 2 ++
    sampleRecord 4096 196 8 4096 3 ++ leBytes 8 4096 ++ leBytes 8 2 ++
    [0x90, 0x90, 0x90, 0xc3, 0, 0, 0, 0, 0, 0, 0, 0]

/-- The plan of the sample at the standard placement. -/
def samplePlan : LoadPlan where
  target := .x86_64
  abiMinor := 3
  imageBase := imageBaseStandard
  entryOffset := 1
  stackPages := 4
  heapPages := 1
  segments := [
    { imageBase := imageBaseStandard, imageOffset := 0, memoryBytes := 4096, fileOffset := 192,
      fileByteCount := 4, permissions := .readExecute, fileBytes := [0x90, 0x90, 0x90, 0xc3] },
    { imageBase := imageBaseStandard, imageOffset := 4096, memoryBytes := 4096, fileOffset := 196,
      fileByteCount := 8, permissions := .readWrite, fileBytes := [0, 0, 0, 0, 0, 0, 0, 0] }]
  relocationRecords := leBytes 8 4096 ++ leBytes 8 2
  relocationCount := 1
  charges := {
    stagingBytes := 204, imagePages := 2, stackPages := 4, heapPages := 1, privatePages := 10,
    reservedResidentPages := 29 }
  layout := {
    startupAddress := 0x400000200000
    ipcAddresses := some (0x400000201000, 0x400000202000)
    heapAddress := 0x400000203000
    heapBytes := 4096
    stackBottom := 0x7ffffffff000 - 0x4000
    stackTop := 0x7ffffffff000
    lowerGuardAddress := 0x7ffffffff000 - 2 ^ 44 - 0x1000
    upperGuardAddress := 0x7ffffffff000 }

theorem safe_of_parse_sample :
    parseWithLimits sampleArtifact .x86_64 3 .standard .standard = .ok samplePlan ∧
      ∃ header, parseHeader sampleArtifact .x86_64 3 .standard = .ok header ∧
        header.WellFormed sampleArtifact.length .standard .native ∧
        samplePlan.Safe sampleArtifact header := by
  have h : parseWithLimits sampleArtifact .x86_64 3 .standard .standard = .ok samplePlan := by
    decide +kernel
  exact ⟨h, safe_of_parseWithLimits h⟩

end Troe.Application
