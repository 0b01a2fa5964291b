import Mathlib.Data.List.Sort
import Troe.Device.Block
import Troe.Storage.Checksum

/-!
# GPT discovery (`troe-fmt-gpt`)

Strict read-only discovery of a partition table over a block region: the protective record, both
headers, their placement and agreement, both entry arrays, and the entries of the first. All block
addresses are relative to the region.
-/

namespace Troe.Gpt

open Lib Block

/-- The text `EFI PART`. -/
def gptSignature : Bytes := [0x45, 0x46, 0x49, 0x20, 0x50, 0x41, 0x52, 0x54]

def gptRevision10 : ℕ := 0x00010000
def gptHeaderBytes : ℕ := 92
def gptEntryBytes : ℕ := 128
def gptNameUnits : ℕ := 36
def protectiveMbrBytes : ℕ := 512
def maxGptEntries : ℕ := 256
def maxGptArrayBytes : ℕ := 64 * 1024

/-- Stable GPT discovery failures. -/
inductive GptError where
  | invalidLimits
  | unsupportedGeometry
  | invalidProtectiveMbr
  | invalidHeader
  | headerChecksum
  | invalidEntryLayout
  | entryChecksum
  | inconsistentCopies
  | invalidPartition
  | overlappingPartitions
  | duplicateIdentifier
  | metadataExhausted
  | block (error : BlockError)
deriving DecidableEq

/-- Resource ceilings applied before retaining partition metadata. -/
structure GptLimits where
  entries : ℕ
  entryArrayBytes : ℕ
  partitions : ℕ

/-- `GptLimits::new`. -/
def GptLimits.new (maxEntries maxEntryArrayBytes maxPartitions : ℕ) : Except GptError GptLimits :=
  if maxEntries = 0 ∨ maxGptEntries < maxEntries ∨ maxEntryArrayBytes < gptEntryBytes
      ∨ maxGptArrayBytes < maxEntryArrayBytes ∨ maxPartitions = 0 ∨ maxEntries < maxPartitions then
    .error .invalidLimits
  else
    .ok { entries := maxEntries, entryArrayBytes := maxEntryArrayBytes, partitions := maxPartitions }

variable (bytes : Bytes) (offset : ℕ) (region : BlockRegion) (header : GptHeader)
  (limits : GptLimits)

/-- `validate_limits`. -/
def validateLimits : Except GptError Unit :=
  (GptLimits.new limits.entries limits.entryArrayBytes limits.partitions).map fun _ => ()

/-- A GUID in its 16-byte form on disk. -/
structure GptGuid where
  diskBytes : Bytes
deriving DecidableEq

/-- `GptGuid::is_zero`. -/
def GptGuid.isZero (guid : GptGuid) : Bool := guid.diskBytes.all (· = 0)

/-- One validated used entry. The name keeps all its units and the count before its terminator. -/
structure GptPartition where
  typeGuid : GptGuid
  uniqueGuid : GptGuid
  firstLba : ℕ
  lastLba : ℕ
  attributes : ℕ
  name : List ℕ
  nameUnits : ℕ
deriving DecidableEq

/-- A complete discovery result. -/
structure GptDisk where
  diskGuid : GptGuid
  firstUsableLba : ℕ
  lastUsableLba : ℕ
  partitions : List GptPartition
deriving DecidableEq

/-- The fields of one header. -/
structure GptHeader where
  currentLba : ℕ
  backupLba : ℕ
  firstUsableLba : ℕ
  lastUsableLba : ℕ
  diskGuid : GptGuid
  entryLba : ℕ
  entryCount : ℕ
  entryBytes : ℕ
  entryCrc32 : ℕ

/-! ## Fields -/

/-- `read_u16`, `read_u32` and `read_u64`: a little-endian field of `n` bytes. -/
def readUint (n : ℕ) (bytes : Bytes) (offset : ℕ) : Except GptError ℕ :=
  okOr (readLe n bytes offset) .invalidHeader

def readU16 : Except GptError ℕ := readUint 2 bytes offset
def readU32 : Except GptError ℕ := readUint 4 bytes offset
def readU64 : Except GptError ℕ := readUint 8 bytes offset

/-- `copy_array_16`. -/
def copyArray16 : Except GptError Bytes :=
  okOr (slice bytes offset 16) .invalidHeader

/-! ## The protective record and the headers -/

/-- One of the four records of the protective MBR: unused, or the single protective one. -/
def countProtective (block : Bytes) (expectedSectors : ℕ) (protectiveCount index : ℕ) :
    Except GptError ℕ := do
  let entry ← okOr (slice block (446 + index * 16) 16) .invalidProtectiveMbr
  if entry.all (· = 0) then return protectiveCount
  rejectIf (entry[0]? ≠ some 0) .invalidProtectiveMbr
  rejectIf (entry[4]? ≠ some 0xee) .invalidProtectiveMbr
  rejectIf ((← readU32 entry 8) ≠ 1) .invalidProtectiveMbr
  rejectIf ((← readU32 entry 12) ≠ expectedSectors) .invalidProtectiveMbr
  okOr (checkedAdd 8 protectiveCount 1) .invalidProtectiveMbr

/-- `validate_protective_mbr`. -/
def validateProtectiveMbr (block : Bytes) (lastLba : ℕ) : Except GptError Unit := do
  rejectIf (block.length < protectiveMbrBytes) .invalidProtectiveMbr
  rejectIf (slice block 510 2 ≠ some [0x55, 0xaa]) .invalidProtectiveMbr
  let protectiveCount ←
    (List.range 4).foldlM (countProtective block (min lastLba (2 ^ 32 - 1))) 0
  rejectIf (protectiveCount ≠ 1) .invalidProtectiveMbr

/-- `parse_header`. -/
def parseHeader (block : Bytes) (expectedCurrentLba expectedBackupLba : ℕ) (limits : GptLimits)
    (blockBytes : ℕ) : Except GptError GptHeader := do
  rejectIf (block.length ≠ blockBytes) .invalidHeader
  rejectIf (slice block 0 8 ≠ some gptSignature) .invalidHeader
  rejectIf ((← readU32 block 8) ≠ gptRevision10) .invalidHeader
  rejectIf ((← readU32 block 12) ≠ gptHeaderBytes) .invalidHeader
  rejectIf ((← readU32 block 20) ≠ 0) .invalidHeader
  rejectIf (block.length < gptHeaderBytes) .invalidHeader
  rejectIf ((block.drop gptHeaderBytes).any (· ≠ 0)) .invalidHeader
  let expectedCrc ← readU32 block 16
  let headerBytes ← okOr (slice block 0 gptHeaderBytes) .invalidHeader
  let headerBytes := splice headerBytes 16 [0, 0, 0, 0]
  rejectIf ((Checksum.crc32 headerBytes).toNat ≠ expectedCrc) .headerChecksum
  let currentLba ← readU64 block 24
  let backupLba ← readU64 block 32
  let diskGuid : GptGuid := ⟨← copyArray16 block 56⟩
  let entryCount ← readU32 block 80
  let entryBytes ← readU32 block 84
  let entryArrayBytes ← okOr (checkedMul 64 entryCount entryBytes) .invalidEntryLayout
  rejectIf (currentLba ≠ expectedCurrentLba ∨ backupLba ≠ expectedBackupLba ∨ diskGuid.isZero
    ∨ entryCount = 0 ∨ limits.entries < entryCount ∨ entryBytes ≠ gptEntryBytes
    ∨ limits.entryArrayBytes < entryArrayBytes) .invalidEntryLayout
  let firstUsableLba ← readU64 block 40
  let lastUsableLba ← readU64 block 48
  let entryLba ← readU64 block 72
  let entryCrc32 ← readU32 block 88
  return { currentLba, backupLba, firstUsableLba, lastUsableLba, diskGuid, entryLba, entryCount,
           entryBytes, entryCrc32 }

/-- `validate_header_placement`. -/
def validateHeaderPlacement (primary : Bool) (lastLba blockBytes : ℕ) : Except GptError Unit := do
  rejectIf (header.lastUsableLba < header.firstUsableLba ∨ lastLba ≤ header.lastUsableLba)
    .invalidHeader
  let arrayBytes ← okOr (checkedMul 64 header.entryCount header.entryBytes) .invalidEntryLayout
  let padded ← okOr (checkedAdd 64 arrayBytes (blockBytes - 1)) .invalidEntryLayout
  let arrayBlocks := padded / blockBytes
  let arrayEnd ← okOr (checkedAdd 64 header.entryLba arrayBlocks) .invalidEntryLayout
  if primary then
    rejectIf (header.entryLba ≤ header.currentLba ∨ header.firstUsableLba < arrayEnd)
      .invalidEntryLayout
  else
    rejectIf (header.entryLba ≤ header.lastUsableLba ∨ header.currentLba < arrayEnd)
      .invalidEntryLayout

/-- `validate_consistency`. -/
def validateConsistency (primary backup : GptHeader) : Except GptError Unit :=
  rejectIf (primary.currentLba ≠ backup.backupLba ∨ primary.backupLba ≠ backup.currentLba
    ∨ primary.firstUsableLba ≠ backup.firstUsableLba
    ∨ primary.lastUsableLba ≠ backup.lastUsableLba
    ∨ primary.diskGuid ≠ backup.diskGuid ∨ primary.entryCount ≠ backup.entryCount
    ∨ primary.entryBytes ≠ backup.entryBytes ∨ primary.entryCrc32 ≠ backup.entryCrc32
    ∨ primary.entryLba = backup.entryLba) .inconsistentCopies

/-! ## The entries -/

/-- Whether `decode_utf16` reads the units without an error: every surrogate is paired. -/
def decodesUtf16 : List ℕ → Bool
  | [] => true
  | unit :: units =>
    if unit < 0xd800 ∨ 0xdfff < unit then decodesUtf16 units
    else
      match units with
      | [] => false
      | low :: units =>
        decide (unit < 0xdc00 ∧ 0xdc00 ≤ low ∧ low ≤ 0xdfff) && decodesUtf16 units

/-- The units read so far, and the index of the first zero one. -/
structure NameScan where
  name : List ℕ := []
  terminator : Option ℕ := none

/-- One unit of a name: after the terminator only zeros may follow. -/
def scanUnit (entry : Bytes) (scan : NameScan) (index : ℕ) : Except GptError NameScan := do
  let unit ← readU16 entry (56 + index * 2)
  let name := scan.name ++ [unit]
  if unit = 0 then
    return { name, terminator := some (scan.terminator.getD index) }
  rejectIf scan.terminator.isSome .invalidPartition
  return { scan with name }

/-- `parse_name`. -/
def parseName (entry : Bytes) : Except GptError (List ℕ × ℕ) := do
  let scan ← (List.range gptNameUnits).foldlM (scanUnit entry) {}
  let nameUnits := scan.terminator.getD gptNameUnits
  rejectIf (decodesUtf16 (scan.name.take nameUnits) = false) .invalidPartition
  rejectIf (2 ^ 8 ≤ nameUnits) .invalidPartition
  return (scan.name, nameUnits)

/-- One entry of the array: unused, or one more partition. -/
def parseEntry (entries : Bytes) (header : GptHeader) (limits : GptLimits)
    (partitions : List GptPartition) (index : ℕ) : Except GptError (List GptPartition) := do
  let start ← okOr (checkedMul 64 index gptEntryBytes) .invalidEntryLayout
  let entry ← okOr (slice entries start gptEntryBytes) .invalidEntryLayout
  let typeGuid : GptGuid := ⟨← copyArray16 entry 0⟩
  if typeGuid.isZero then
    rejectIf (entry.any (· ≠ 0)) .invalidPartition
    return partitions
  rejectIf (limits.partitions ≤ partitions.length) .invalidEntryLayout
  let uniqueGuid : GptGuid := ⟨← copyArray16 entry 16⟩
  let firstLba ← readU64 entry 32
  let lastLba ← readU64 entry 40
  rejectIf (uniqueGuid.isZero ∨ lastLba < firstLba ∨ firstLba < header.firstUsableLba
    ∨ header.lastUsableLba < lastLba) .invalidPartition
  rejectIf (partitions.any (·.uniqueGuid = uniqueGuid)) .duplicateIdentifier
  let (name, nameUnits) ← parseName entry
  let attributes ← readU64 entry 48
  return partitions ++ [{ typeGuid, uniqueGuid, firstLba, lastLba, attributes, name, nameUnits }]

/-- Whether two partitions that follow each other overlap. -/
def overlapping : List GptPartition → Bool
  | first :: second :: rest =>
    decide (second.firstLba ≤ first.lastLba) || overlapping (second :: rest)
  | _ => false

/-- The check after the sort of `parse_partitions`. Partitions with one first block overlap, so how
the sort orders equal keys makes no difference. -/
def orderPartitions (partitions : List GptPartition) : Except GptError (List GptPartition) := do
  let sorted := partitions.insertionSort fun p q => p.firstLba ≤ q.firstLba
  rejectIf (overlapping sorted) .overlappingPartitions
  return sorted

/-- `parse_partitions`. -/
def parsePartitions (entries : Bytes) (header : GptHeader) (limits : GptLimits) :
    Prog Device GptError (List GptPartition) := do
  tryReserve limits.partitions .metadataExhausted
  .ofExcept do
    orderPartitions (← (List.range header.entryCount).foldlM (parseEntry entries header limits) [])

/-! ## Reading the device -/

/-- `read_one_block`. -/
def readOneBlock (lba blockBytes : ℕ) : Prog Device GptError Bytes := do
  tryReserve blockBytes .metadataExhausted
  (region.readBlocks lba 1 blockBytes).mapErr .block

/-- One block of an entry array, into its place in the buffer. -/
def readEntryBlock (blockBytes : ℕ) (stored : Bytes) (index : ℕ) : Prog Device GptError Bytes := do
  let lba ← .ofOption .invalidEntryLayout (checkedAdd 64 header.entryLba index)
  let start ← .ofOption .invalidEntryLayout (checkedMul 64 index blockBytes)
  let finish ← .ofOption .invalidEntryLayout (checkedAdd 64 start blockBytes)
  let bytes ← (region.readBlocks lba 1 (finish - start)).mapErr .block
  return splice stored start bytes

/-- `read_entry_array`. -/
def readEntryArray (blockBytes : ℕ) : Prog Device GptError Bytes := do
  let exactBytes ← .ofOption .invalidEntryLayout (checkedMul 64 header.entryCount header.entryBytes)
  .reject (limits.entryArrayBytes < exactBytes) .invalidEntryLayout
  let padded ← .ofOption .invalidEntryLayout (checkedAdd 64 exactBytes (blockBytes - 1))
  let storedBytes := padded / blockBytes * blockBytes
  let blocks := storedBytes / blockBytes
  tryReserve storedBytes .metadataExhausted
  let stored ← (List.range blocks).foldlM (readEntryBlock region header blockBytes)
    (List.replicate storedBytes 0)
  return stored.take exactBytes

/-- An entry array with the checksum its header gives. -/
def readCheckedArray (blockBytes : ℕ) : Prog Device GptError Bytes := do
  let entries ← readEntryArray region header limits blockBytes
  .reject ((Checksum.crc32 entries).toNat ≠ header.entryCrc32) .entryChecksum
  return entries

/-- `discover`. -/
def discover : Prog Device GptError GptDisk := do
  .ofExcept (validateLimits limits)
  let info := region.info
  .reject (info.requiredAlignmentBlocks ≠ 1 ∨ info.blockCount < 6
    ∨ info.blockBytes < protectiveMbrBytes) .unsupportedGeometry
  let blockBytes := info.blockBytes
  let lastLba ← .ofOption .unsupportedGeometry (checkedSub info.blockCount 1)
  let protectiveBlock ← readOneBlock region 0 blockBytes
  .ofExcept (validateProtectiveMbr protectiveBlock lastLba)
  let primaryBlock ← readOneBlock region 1 blockBytes
  let primary ← .ofExcept (parseHeader primaryBlock 1 lastLba limits blockBytes)
  let backupBlock ← readOneBlock region lastLba blockBytes
  let backup ← .ofExcept (parseHeader backupBlock lastLba 1 limits blockBytes)
  .ofExcept (validateHeaderPlacement primary true lastLba blockBytes)
  .ofExcept (validateHeaderPlacement backup false lastLba blockBytes)
  .ofExcept (validateConsistency primary backup)
  let primaryEntries ← readCheckedArray region primary limits blockBytes
  let backupEntries ← readCheckedArray region backup limits blockBytes
  .reject (primaryEntries ≠ backupEntries) .inconsistentCopies
  let partitions ← parsePartitions primaryEntries primary limits
  return { diskGuid := primary.diskGuid, firstUsableLba := primary.firstUsableLba,
           lastUsableLba := primary.lastUsableLba, partitions }

end Troe.Gpt
