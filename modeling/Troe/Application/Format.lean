import Troe.Lib.Bytes

/-!
# The executable format (`troe-application`: `lib.rs`, `limits.rs`, `bytes.rs`)

The constants of the KEX v1 container, the closed sets its fields range over, the limits of the
standard policy, and the little-endian reads every parser of the crate uses. Lengths and addresses
are `u64` values; the format requires 64-bit pointers, so `usize` has the same range.
-/

namespace Troe.Application

open Lib

/-! ## Constants -/

/-- `PAGE_SIZE`. -/
def pageSize : ℕ := 4096

/-- `KEX_V1_IMAGE_BASE`. -/
def imageBaseStandard : ℕ := 0x400000000000

/-- `KEX_V1_MIN_IMAGE_BASE`. -/
def minImageBase : ℕ := 0x100000000

/-- `KEX_V1_IMAGE_ALIGNMENT`. -/
def imageAlignment : ℕ := 2 * 1024 * 1024

/-- `KEX_V1_USER_END`. -/
def userEnd : ℕ := 0x800000000000

/-- `KEX_V1_LEGACY_IMAGE_SPAN_BYTES`. -/
def legacyImageSpanBytes : ℕ := 128 * 1024 * 1024

/-- `KEX_V1_DECLARED_SPAN_ABI_MINOR`. -/
def declaredSpanAbiMinor : ℕ := 2

/-- `KEX_V1_HEADER_BYTES`. -/
def kexHeaderBytes : ℕ := 96

/-- `KEX_V1_LOAD_RECORD_BYTES`. -/
def loadRecordBytes : ℕ := 40

/-- `KEX_V1_RELOCATION_RECORD_BYTES`. -/
def relocationRecordBytes : ℕ := 16

/-- `KEX_V1_MAGIC`, `KEX\0FMT\0`. -/
def kexMagic : Bytes := [0x4b, 0x45, 0x58, 0, 0x46, 0x4d, 0x54, 0]

/-- `MAX_LOAD_RECORDS`. -/
def maxLoadRecords : ℕ := 16

/-- `KEX_V1_CONTAINER_MAJOR`. -/
def containerMajor : ℕ := 1

/-- `KEX_V1_CONTAINER_MINOR`. -/
def containerMinor : ℕ := 2

/-- `ABI_MAJOR`. -/
def abiMajor : ℕ := 1

/-- `ABI_MINOR`. -/
def abiMinor : ℕ := 3

/-- `startup::IPC_ABI_MINOR`. -/
def ipcAbiMinor : ℕ := 3

/-- `startup::THREAD_ABI_MINOR`. -/
def threadAbiMinor : ℕ := 4

/-- `STARTUP_PAGES`. -/
def startupPages : ℕ := 1

/-- `startup::ipc_pages`. -/
def ipcPages (minor : ℕ) : ℕ := if ipcAbiMinor ≤ minor then 2 else 0

/-- `MAX_IMAGE_SPAN_BYTES`. -/
def maxImageSpanBytes : ℕ := 1024 * 1024 * 1024

/-! ## Closed sets -/

/-- `Target`: the architecture of an artifact. -/
inductive Target where
  | x86_64
  | aarch64
deriving DecidableEq

/-- `Target::from_raw`. -/
def Target.fromRaw : ℕ → Option Target
  | 1 => some .x86_64
  | 2 => some .aarch64
  | _ => none

/-- `SegmentPermissions`: what the pages of a segment permit. -/
inductive SegmentPermissions where
  | readOnly
  | readExecute
  | readWrite
deriving DecidableEq

namespace SegmentPermissions

/-- `SegmentPermissions::from_raw`. -/
def fromRaw : ℕ → Option SegmentPermissions
  | 1 => some .readOnly
  | 2 => some .readExecute
  | 3 => some .readWrite
  | _ => none

/-- Whether instruction fetch is permitted. -/
def executable : SegmentPermissions → Bool
  | readExecute => true
  | _ => false

/-- Whether writes are permitted. -/
def writable : SegmentPermissions → Bool
  | readWrite => true
  | _ => false

theorem not_writable_and_executable (permissions : SegmentPermissions) :
    ¬ (permissions.writable ∧ permissions.executable) := by
  cases permissions <;> decide

end SegmentPermissions

/-- `ParseError`: why an artifact is rejected. -/
inductive ParseError where
  | artifactTooLarge
  | truncatedHeader
  | invalidMagic
  | unsupportedContainerVersion
  | wrongTarget
  | invalidLayout
  | nonzeroReserved
  | unsupportedAbi
  | lengthMismatch
  | invalidRecordCount
  | arithmeticOverflow
  | invalidPermissions
  | invalidSegmentRange
  | overlappingSegments
  | noncanonicalPayload
  | imageSpanExceeded
  | invalidImageSpan
  | stackBudgetExceeded
  | heapBudgetExceeded
  | residentBudgetExceeded
  | missingExecutableSegment
  | invalidEntryPoint
  | invalidPlacement
  | invalidRelocation
deriving DecidableEq

/-! ## Limits -/

/-- `canonical_image_span_bytes`: the image end rounded up to the image alignment. -/
def canonicalImageSpanBytes (imageEnd : ℕ) : Option ℕ :=
  (checkedAdd 64 imageEnd (imageAlignment - 1)).map
    fun rounded => rounded / imageAlignment * imageAlignment

/-- `TABLE_ENTRIES`. -/
def tableEntries : ℕ := 512

/-- `TABLE_LEVELS_BELOW_ROOT`. -/
def tableLevelsBelowRoot : ℕ := 3

/-- `LAUNCH_REGIONS`. -/
def launchRegions : ℕ := 5

/-- One level of the loop in `maximum_table_pages`: the total so far and the pages that one table
of the next level covers. -/
def addTableLevel (mappedPages : ℕ) (total coverage : ℕ) : Option (ℕ × ℕ) := do
  let rounded ← checkedAdd 64 mappedPages (coverage - 1)
  let withLevel ← checkedAdd 64 total (rounded / coverage)
  let withRegions ← checkedAdd 64 withLevel launchRegions
  let wider ← checkedMul 64 coverage tableEntries
  return (withRegions, wider)

/-- The loop of `maximum_table_pages` over the remaining levels. -/
def addTableLevels (mappedPages : ℕ) : ℕ → ℕ → ℕ → Option ℕ
  | 0, total, _ => some total
  | levels + 1, total, coverage =>
    (addTableLevel mappedPages total coverage).bind
      fun (total, coverage) => addTableLevels mappedPages levels total coverage

/-- `maximum_table_pages`: a bound on the tables that map this many pages. -/
def maximumTablePages (mappedPages : ℕ) : Option ℕ :=
  addTableLevels mappedPages tableLevelsBelowRoot 1 tableEntries

/-- `ApplicationLimits`, without the handle limit that only the startup encoder reads. -/
structure ApplicationLimits where
  encodedBytes : ℕ
  loadRecords : ℕ
  maximumImageSpanBytes : ℕ
  minimumStackPages : ℕ
  maximumStackPages : ℕ
  heapPages : ℕ
  residentPages : ℕ

/-- `MAX_PRIVATE_PAGES`. -/
def maxPrivatePages : ℕ := maxImageSpanBytes / pageSize + startupPages + 2 + 2 ^ 32 + 2 ^ 32

/-- `ApplicationLimits::STANDARD`. -/
def ApplicationLimits.standard : ApplicationLimits where
  encodedBytes := 2 * maxImageSpanBytes
  loadRecords := 16
  maximumImageSpanBytes := maxImageSpanBytes
  minimumStackPages := 4
  maximumStackPages := 2 ^ 32
  heapPages := 2 ^ 32
  residentPages := (maximumTablePages maxPrivatePages).elim 0 (maxPrivatePages + ·)

/-- `LoadPlacement`: where the kernel puts an image and its stack. -/
structure LoadPlacement where
  imageBase : ℕ
  stackTop : ℕ

/-- `LoadPlacement::STANDARD`. -/
def LoadPlacement.standard : LoadPlacement where
  imageBase := imageBaseStandard
  stackTop := userEnd - pageSize

/-! ## Reads -/

/-- `read_u16`, `read_u32` and `read_u64`: a field of 2, 4 or 8 bytes. -/
def readField (width : ℕ) (bytes : Bytes) (offset : ℕ) : Except ParseError ℕ :=
  okOr (readLe width bytes offset) .arithmeticOverflow

/-- A field that must hold one value. -/
def expectField (width : ℕ) (bytes : Bytes) (offset value : ℕ) (error : ParseError) :
    Except ParseError Unit := do
  let field ← readField width bytes offset
  rejectIf (field ≠ value) error

end Troe.Application
