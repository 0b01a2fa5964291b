import Troe.Application.Format

/-!
# The executable parser (`troe-application::executable`, `troe-application::plan`)

A KEX artifact is a header, a table of load records, a table of relative relocations and the
payload. `parseWithLimits` checks the four parts in this order and computes the addresses of the
startup page, the heap and the stack for the placement the kernel selected.
-/

namespace Troe.Application

open Lib

/-! ## Header -/

/-- `HeaderFormat`: the native container, or the one with a static TLS extension. -/
inductive HeaderFormat where
  | native
  | staticTls
deriving DecidableEq

namespace HeaderFormat

/-- `HeaderFormat::accepts_abi`. -/
def acceptsAbi (format : HeaderFormat) (minor supported : ℕ) : Bool :=
  minor ≤ supported && (format ≠ .staticTls || minor = threadAbiMinor)

/-- `HeaderFormat::properties`: the container minor. -/
def containerMinor : HeaderFormat → ℕ
  | native => Application.containerMinor
  | staticTls => 3

/-- `HeaderFormat::properties`: the header length. -/
def headerBytes : HeaderFormat → ℕ
  | native => kexHeaderBytes
  | staticTls => 160

/-- `HeaderFormat::properties`: the flags. -/
def flags : HeaderFormat → ℕ
  | native => 0
  | staticTls => 2

end HeaderFormat

/-- `ParsedHeader`. -/
structure ParsedHeader where
  target : Target
  abiMinor : ℕ
  imageSpanBytes : ℕ
  entryOffset : ℕ
  recordCount : ℕ
  recordsOffset : ℕ
  payloadOffset : ℕ
  stackPages : ℕ
  heapPages : ℕ
  relocationsOffset : ℕ
  relocationCount : ℕ

/-- The span that `parse_image_span` takes from the header, before it is checked: older artifacts
leave the field zero. -/
def declaredImageSpan (abiMinor declaredSpanPages : ℕ) : Except ParseError ℕ :=
  if abiMinor < declaredSpanAbiMinor then
    if declaredSpanPages ≠ 0 then .error .nonzeroReserved else .ok legacyImageSpanBytes
  else okOr (checkedMul 64 declaredSpanPages pageSize) .arithmeticOverflow

/-- `parse_image_span`. -/
def parseImageSpan (header : Bytes) (abiMinor : ℕ) (limits : ApplicationLimits) :
    Except ParseError ℕ := do
  let declaredSpanPages ← readField 4 header 36
  let imageSpanBytes ← declaredImageSpan abiMinor declaredSpanPages
  rejectIf (imageSpanBytes = 0 ∨ limits.maximumImageSpanBytes < imageSpanBytes ∨
    ¬ imageAlignment ∣ imageSpanBytes) .invalidImageSpan
  return imageSpanBytes

/-- The first half of `parse_header_for_format`: magic, versions, target and the fields with one
permitted value. Returns the target and the ABI minor. -/
def parseHeaderIdentity (header : Bytes) (expectedTarget : Target) (supportedAbiMinor : ℕ)
    (format : HeaderFormat) : Except ParseError (Target × ℕ) := do
  rejectIf (header.take 8 ≠ kexMagic) .invalidMagic
  expectField 2 header 8 containerMajor .unsupportedContainerVersion
  expectField 2 header 10 format.containerMinor .unsupportedContainerVersion
  let rawTarget ← readField 2 header 12
  let target ← okOr (Target.fromRaw rawTarget) .wrongTarget
  rejectIf (target ≠ expectedTarget) .wrongTarget
  expectField 2 header 14 format.headerBytes .invalidLayout
  expectField 2 header 16 loadRecordBytes .invalidLayout
  let major ← readField 2 header 18
  let minor ← readField 2 header 20
  rejectIf (major ≠ abiMajor ∨ ¬ format.acceptsAbi minor supportedAbiMinor) .unsupportedAbi
  expectField 2 header 22 format.flags .nonzeroReserved
  expectField 2 header 34 0 .nonzeroReserved
  expectField 2 header 74 0 .nonzeroReserved
  expectField 4 header 76 0 .nonzeroReserved
  expectField 8 header 88 0 .nonzeroReserved
  return (target, minor)

/-- The second half of `parse_header_for_format`: the declared length, the tables, which follow one
another without a gap, and the page requests. -/
def parseHeaderTables (header : Bytes) (artifactLen : ℕ) (limits : ApplicationLimits)
    (format : HeaderFormat) (target : Target) (abiMinor imageSpanBytes : ℕ) :
    Except ParseError ParsedHeader := do
  expectField 8 header 80 artifactLen .lengthMismatch
  let recordCount ← readField 2 header 32
  rejectIf (recordCount = 0 ∨ limits.loadRecords < recordCount ∨ maxLoadRecords < recordCount)
    .invalidRecordCount
  let recordsOffset ← readField 4 header 56
  let payloadOffset ← readField 4 header 60
  let relocationsOffset ← readField 4 header 64
  let relocationCount ← readField 4 header 68
  expectField 2 header 72 relocationRecordBytes .invalidLayout
  let recordsBytes ← okOr (checkedMul 64 recordCount loadRecordBytes) .arithmeticOverflow
  let recordsEnd ← okOr (checkedAdd 64 recordsOffset recordsBytes) .arithmeticOverflow
  let relocationTableBytes ←
    okOr (checkedMul 64 relocationCount relocationRecordBytes) .arithmeticOverflow
  let relocationsEnd ←
    okOr (checkedAdd 64 relocationsOffset relocationTableBytes) .arithmeticOverflow
  rejectIf (recordsOffset ≠ format.headerBytes ∨ relocationsOffset ≠ recordsEnd ∨
    payloadOffset ≠ relocationsEnd ∨ artifactLen < payloadOffset) .invalidLayout
  let entryOffset ← readField 8 header 24
  let stackPages ← readField 8 header 40
  let heapPages ← readField 8 header 48
  rejectIf (stackPages < limits.minimumStackPages ∨ limits.maximumStackPages < stackPages)
    .stackBudgetExceeded
  rejectIf (limits.heapPages < heapPages) .heapBudgetExceeded
  return {
    target, abiMinor, imageSpanBytes, entryOffset, recordCount, recordsOffset, payloadOffset,
    stackPages, heapPages, relocationsOffset, relocationCount }

/-- `parse_header_for_format`: `artifactPrefix` need not reach beyond the tables. -/
def parseHeaderForFormat (artifactPrefix : Bytes) (artifactLen : ℕ) (expectedTarget : Target)
    (supportedAbiMinor : ℕ) (limits : ApplicationLimits) (format : HeaderFormat) :
    Except ParseError ParsedHeader := do
  let header ← okOr (slice artifactPrefix 0 format.headerBytes) .truncatedHeader
  let (target, minor) ← parseHeaderIdentity header expectedTarget supportedAbiMinor format
  let imageSpanBytes ← parseImageSpan header minor limits
  parseHeaderTables header artifactLen limits format target minor imageSpanBytes

variable (artifact : Bytes) (header : ParsedHeader)

/-- `parse_header`. -/
def parseHeader (expectedTarget : Target) (supportedAbiMinor : ℕ) (limits : ApplicationLimits) :
    Except ParseError ParsedHeader :=
  parseHeaderForFormat artifact artifact.length expectedTarget supportedAbiMinor limits .native

/-! ## Segments -/

/-- `LoadSegment`: one part of the image with its payload bytes. -/
structure LoadSegment where
  imageBase : ℕ
  imageOffset : ℕ
  memoryBytes : ℕ
  fileOffset : ℕ
  fileByteCount : ℕ
  permissions : SegmentPermissions
  fileBytes : Bytes
deriving DecidableEq

namespace LoadSegment

/-- `LoadSegment::virtual_address`: a plain `u64` addition. -/
def virtualAddress (segment : LoadSegment) : ℕ := (segment.imageBase + segment.imageOffset) % 2 ^ 64

/-- The first image byte after the segment. -/
def imageEnd (segment : LoadSegment) : ℕ := segment.imageOffset + segment.memoryBytes

end LoadSegment

/-- The checks of `parse_record` that need only the record: the raw fields of a segment whose
memory range is whole pages. -/
structure SegmentFields where
  imageOffset : ℕ
  fileOffset : ℕ
  fileByteCount : ℕ
  memoryBytes : ℕ
  permissions : SegmentPermissions

/-- `parse_record`, up to the check of the memory range. -/
def parseFields (record : Bytes) : Except ParseError SegmentFields := do
  let imageOffset ← readField 8 record 0
  let fileOffset ← readField 8 record 8
  let fileByteCount ← readField 8 record 16
  let memoryBytes ← readField 8 record 24
  let rawPermissions ← readField 4 record 32
  let permissions ← okOr (SegmentPermissions.fromRaw rawPermissions) .invalidPermissions
  expectField 4 record 36 0 .nonzeroReserved
  rejectIf (memoryBytes = 0 ∨ ¬ pageSize ∣ imageOffset ∨ ¬ pageSize ∣ memoryBytes ∨
    memoryBytes < fileByteCount) .invalidSegmentRange
  return { imageOffset, fileOffset, fileByteCount, memoryBytes, permissions }

/-- `ParsedRecord`. -/
structure ParsedRecord where
  segment : LoadSegment
  imageEnd : ℕ
  fileEnd : ℕ

/-- `parse_record`. -/
def parseRecord (record : Bytes) (expectedFileOffset previousImageEnd : ℕ) (hasPredecessor : Bool)
    (imageSpanBytes imageBase : ℕ) : Except ParseError ParsedRecord := do
  let fields ← parseFields record
  let imageEnd ←
    okOr (checkedAdd 64 fields.imageOffset fields.memoryBytes) .arithmeticOverflow
  let _ ← okOr (checkedAdd 64 imageBase imageEnd) .arithmeticOverflow
  rejectIf (hasPredecessor ∧ fields.imageOffset < previousImageEnd) .overlappingSegments
  rejectIf (imageSpanBytes < imageEnd) .imageSpanExceeded
  rejectIf (fields.fileOffset ≠ expectedFileOffset) .noncanonicalPayload
  let fileEnd ← okOr (checkedAdd 64 fields.fileOffset fields.fileByteCount) .arithmeticOverflow
  let payload ← okOr (slice artifact fields.fileOffset fields.fileByteCount) .noncanonicalPayload
  return {
    segment := {
      imageBase
      imageOffset := fields.imageOffset
      memoryBytes := fields.memoryBytes
      fileOffset := fields.fileOffset
      fileByteCount := fields.fileByteCount
      permissions := fields.permissions
      fileBytes := payload }
    imageEnd
    fileEnd }

/-- The record of the given index in the table. -/
def recordAt (index : ℕ) : Except ParseError Bytes := do
  let recordOffset ← okOr (checkedMul 64 index loadRecordBytes) .arithmeticOverflow
  let recordStart ← okOr (checkedAdd 64 header.recordsOffset recordOffset) .arithmeticOverflow
  let _ ← okOr (checkedAdd 64 recordStart loadRecordBytes) .arithmeticOverflow
  okOr (slice artifact recordStart loadRecordBytes) .invalidLayout

/-- Whether an executable segment contains the entry point. -/
def entryInside (entryOffset : ℕ) (permissions : SegmentPermissions) (imageOffset imageEnd : ℕ) :
    Except ParseError Bool :=
  if permissions.executable then do
    let entryEnd ← okOr (checkedAdd 64 entryOffset 1) .arithmeticOverflow
    return decide (imageOffset ≤ entryOffset ∧ entryEnd ≤ imageEnd)
  else .ok false

/-- The variables of the loops over the load records: what has been read, where the next payload
must start, where the last segment ended, and what has been seen. -/
structure SegmentScan (σ : Type) where
  segments : List σ
  expectedFileOffset : ℕ
  previousImageEnd : ℕ
  imagePages : ℕ
  executable : Bool
  entryIsExecutable : Bool

/-- The scan before the first record. -/
def SegmentScan.start {σ : Type} (header : ParsedHeader) : SegmentScan σ where
  segments := []
  expectedFileOffset := header.payloadOffset
  previousImageEnd := 0
  imagePages := 0
  executable := false
  entryIsExecutable := false

/-- One turn of the loop in `parse_segments`. -/
def scanSegment (imageBase : ℕ) (scan : SegmentScan LoadSegment) (index : ℕ) :
    Except ParseError (SegmentScan LoadSegment) := do
  let record ← recordAt artifact header index
  let parsed ← parseRecord artifact record scan.expectedFileOffset scan.previousImageEnd
    (index ≠ 0) header.imageSpanBytes imageBase
  let imagePages ←
    okOr (checkedAdd 64 scan.imagePages (parsed.segment.memoryBytes / pageSize)) .arithmeticOverflow
  let entry ← entryInside header.entryOffset parsed.segment.permissions parsed.segment.imageOffset
    parsed.imageEnd
  return {
    segments := scan.segments ++ [parsed.segment]
    expectedFileOffset := parsed.fileEnd
    previousImageEnd := parsed.imageEnd
    imagePages
    executable := scan.executable || parsed.segment.permissions.executable
    entryIsExecutable := scan.entryIsExecutable || entry }

/-- The checks after the loop over the load records. -/
def finishScan {σ : Type} (header : ParsedHeader) (imageBytes : ℕ) (scan : SegmentScan σ) :
    Except ParseError (List σ × ℕ) := do
  rejectIf (scan.expectedFileOffset ≠ imageBytes) .noncanonicalPayload
  rejectIf (scan.executable = false) .missingExecutableSegment
  rejectIf (scan.entryIsExecutable = false) .invalidEntryPoint
  rejectIf (declaredSpanAbiMinor ≤ header.abiMinor ∧
    canonicalImageSpanBytes scan.previousImageEnd ≠ some header.imageSpanBytes) .invalidImageSpan
  return (scan.segments, scan.imagePages)

/-- `parse_segments`: the segments and their pages. -/
def parseSegments (imageBase : ℕ) : Except ParseError (List LoadSegment × ℕ) := do
  let scan ← (List.range header.recordCount).foldlM (scanSegment artifact header imageBase)
    (.start header)
  finishScan header artifact.length scan

/-! ## Relocations -/

/-- `RelativeRelocation`. -/
structure RelativeRelocation where
  targetOffset : ℕ
  valueOffset : ℕ

/-- The relocation in one record of the table. -/
def RelativeRelocation.ofRecord (record : Bytes) : RelativeRelocation where
  targetOffset := leValue (record.take 8)
  valueOffset := leValue ((record.drop 8).take 8)

/-- The largest of the ends `ends` gives, when none of them overflows. -/
def largestEnd (extents : List (ℕ × ℕ)) : Option ℕ :=
  extents.foldlM
    (fun stop extent => (checkedAdd 64 extent.1 extent.2).map fun segmentEnd => max stop segmentEnd) 0

/-- Whether the bytes from `targetOffset` up to `targetEnd` lie in one of the segments, which are
given by offset and length. -/
def targetInside (extents : List (ℕ × ℕ)) (targetOffset targetEnd : ℕ) : Bool :=
  extents.any fun extent =>
    extent.1 ≤ targetOffset && (checkedAdd 64 extent.1 extent.2).any (targetEnd ≤ ·)

/-- One turn of the loop in `parse_relocations`; the state is the target of the record before. -/
def checkRelocation (extents : List (ℕ × ℕ)) (imageEnd : ℕ) (previousTarget : Option ℕ)
    (record : Bytes) : Except ParseError (Option ℕ) := do
  let targetOffset ← readField 8 record 0
  let valueOffset ← readField 8 record 8
  let targetEnd ← okOr (checkedAdd 64 targetOffset 8) .invalidRelocation
  rejectIf (previousTarget.any (targetOffset ≤ ·) ∨ imageEnd ≤ valueOffset ∨
    ¬ targetInside extents targetOffset targetEnd) .invalidRelocation
  return some targetOffset

/-- Offset and length of a segment in the image. -/
def LoadSegment.extent (segment : LoadSegment) : ℕ × ℕ := (segment.imageOffset, segment.memoryBytes)

/-- `parse_relocations`: the bytes of the relocation table. -/
def parseRelocations (segments : List LoadSegment) : Except ParseError Bytes := do
  let byteCount ←
    okOr (checkedMul 64 header.relocationCount relocationRecordBytes) .arithmeticOverflow
  let _ ← okOr (checkedAdd 64 header.relocationsOffset byteCount) .arithmeticOverflow
  let records ← okOr (slice artifact header.relocationsOffset byteCount) .invalidLayout
  let imageEnd ← okOr (largestEnd (segments.map LoadSegment.extent)) .arithmeticOverflow
  let _ ← (chunksExact relocationRecordBytes records).foldlM
    (checkRelocation (segments.map LoadSegment.extent) imageEnd) none
  return records

/-! ## Layout -/

/-- `ApplicationLayout`: the addresses outside the image. -/
structure ApplicationLayout where
  startupAddress : ℕ
  ipcAddresses : Option (ℕ × ℕ)
  heapAddress : ℕ
  heapBytes : ℕ
  stackBottom : ℕ
  stackTop : ℕ
  lowerGuardAddress : ℕ
  upperGuardAddress : ℕ
deriving DecidableEq

/-- The guard pages around the stack slot. Without an ABI minor the slot follows the largest heap;
later it ends at the stack top of the placement. -/
def guardAddresses (abiMinor heapAddress stackSlotBytes : ℕ) (limits : ApplicationLimits)
    (placement : LoadPlacement) : Except ParseError (ℕ × ℕ) :=
  if abiMinor = 0 then do
    let heapSlotBytes ← okOr (checkedMul 64 limits.heapPages pageSize) .arithmeticOverflow
    let lower ← okOr (checkedAdd 64 heapAddress heapSlotBytes) .arithmeticOverflow
    let stackSlot ← okOr (checkedAdd 64 lower pageSize) .arithmeticOverflow
    let upper ← okOr (checkedAdd 64 stackSlot stackSlotBytes) .arithmeticOverflow
    return (lower, upper)
  else do
    let stackSlot ← okOr (checkedSub placement.stackTop stackSlotBytes) .arithmeticOverflow
    let lower ← okOr (checkedSub stackSlot pageSize) .arithmeticOverflow
    return (lower, placement.stackTop)

/-- `application_layout`. -/
def applicationLayout (stackPages heapPages abiMinor imageSpanBytes : ℕ)
    (limits : ApplicationLimits) (placement : LoadPlacement) :
    Except ParseError ApplicationLayout := do
  rejectIf (placement.imageBase < minImageBase ∨ ¬ imageAlignment ∣ placement.imageBase ∨
    ¬ pageSize ∣ placement.stackTop ∨ userEnd ≤ placement.stackTop) .invalidPlacement
  let startupAddress ←
    okOr (checkedAdd 64 placement.imageBase imageSpanBytes) .arithmeticOverflow
  let ipcBytes := ipcPages abiMinor * pageSize
  let heapAddress ← okOr (checkedAdd 64 startupAddress (pageSize + ipcBytes)) .arithmeticOverflow
  let heapBytes ← okOr (checkedMul 64 heapPages pageSize) .arithmeticOverflow
  let stackSlotBytes ← okOr (checkedMul 64 limits.maximumStackPages pageSize) .arithmeticOverflow
  let (lower, upper) ← guardAddresses abiMinor heapAddress stackSlotBytes limits placement
  let stackBytes ← okOr (checkedMul 64 stackPages pageSize) .arithmeticOverflow
  let stackBottom ← okOr (checkedSub upper stackBytes) .arithmeticOverflow
  let addressEnd ← okOr (checkedAdd 64 upper pageSize) .arithmeticOverflow
  let initialHeapEnd ← okOr (checkedAdd 64 heapAddress heapBytes) .arithmeticOverflow
  rejectIf (lower < initialHeapEnd ∨ userEnd < addressEnd) .invalidPlacement
  return {
    startupAddress
    ipcAddresses :=
      if ipcBytes ≠ 0 then some (heapAddress - 2 * pageSize, heapAddress - pageSize) else none
    heapAddress
    heapBytes
    stackBottom
    stackTop := upper
    lowerGuardAddress := lower
    upperGuardAddress := upper }

/-! ## Plan -/

/-- `LoadCharges`. -/
structure LoadCharges where
  stagingBytes : ℕ
  imagePages : ℕ
  stackPages : ℕ
  heapPages : ℕ
  privatePages : ℕ
  reservedResidentPages : ℕ
deriving DecidableEq

/-- The page charges both loading paths compute, with the bytes the path stages. -/
def loadCharges (stagingBytes imagePages : ℕ) (header : ParsedHeader)
    (limits : ApplicationLimits) : Except ParseError LoadCharges := do
  let withStack ← okOr (checkedAdd 64 imagePages header.stackPages) .arithmeticOverflow
  let withHeap ← okOr (checkedAdd 64 withStack header.heapPages) .arithmeticOverflow
  let privatePages ←
    okOr (checkedAdd 64 withHeap (startupPages + ipcPages header.abiMinor)) .arithmeticOverflow
  let tables ← okOr (maximumTablePages privatePages) .arithmeticOverflow
  let reservedResidentPages ← okOr (checkedAdd 64 privatePages tables) .arithmeticOverflow
  rejectIf (limits.residentPages < reservedResidentPages) .residentBudgetExceeded
  return {
    stagingBytes, imagePages, stackPages := header.stackPages, heapPages := header.heapPages,
    privatePages, reservedResidentPages }

/-- `LoadPlan`. -/
structure LoadPlan where
  target : Target
  abiMinor : ℕ
  imageBase : ℕ
  entryOffset : ℕ
  stackPages : ℕ
  heapPages : ℕ
  segments : List LoadSegment
  relocationRecords : Bytes
  relocationCount : ℕ
  charges : LoadCharges
  layout : ApplicationLayout
deriving DecidableEq

namespace LoadPlan

/-- `LoadPlan::relocations`. -/
def relocations (plan : LoadPlan) : List RelativeRelocation :=
  ((chunksExact relocationRecordBytes plan.relocationRecords).take plan.relocationCount).map
    RelativeRelocation.ofRecord

/-- `LoadPlan::entry_address`: a plain `u64` addition. -/
def entryAddress (plan : LoadPlan) : ℕ := (plan.imageBase + plan.entryOffset) % 2 ^ 64

end LoadPlan

/-- `parse_with_limits`. -/
def parseWithLimits (expectedTarget : Target) (supportedAbiMinor : ℕ) (limits : ApplicationLimits)
    (placement : LoadPlacement) : Except ParseError LoadPlan := do
  rejectIf (limits.encodedBytes < artifact.length) .artifactTooLarge
  let header ← parseHeader artifact expectedTarget supportedAbiMinor limits
  let (segments, imagePages) ← parseSegments artifact header placement.imageBase
  let relocationRecords ← parseRelocations artifact header segments
  let charges ← loadCharges artifact.length imagePages header limits
  let layout ← applicationLayout header.stackPages header.heapPages header.abiMinor
    header.imageSpanBytes limits placement
  return {
    target := header.target
    abiMinor := header.abiMinor
    imageBase := placement.imageBase
    entryOffset := header.entryOffset
    stackPages := header.stackPages
    heapPages := header.heapPages
    segments
    relocationRecords
    relocationCount := header.relocationCount
    charges
    layout }

/-- `parse_kex_at`. -/
def parseKexAt (expectedTarget : Target) (supportedAbiMinor : ℕ) (placement : LoadPlacement) :
    Except ParseError LoadPlan :=
  parseWithLimits artifact expectedTarget supportedAbiMinor .standard placement

end Troe.Application
