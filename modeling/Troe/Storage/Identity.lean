import Mathlib.Data.Prod.Lex
import Troe.Lib.Sorted
import Troe.Lib.CycleSearch
import Troe.Lib.Utf8
import Troe.Storage.Checksum

/-!
# Identity registries (`troe-identity`)

The native registry snapshot: sorted principals with their direct memberships in groups. Parsing
checks every field of the image, that memberships name live groups, and that no group is a member of
itself over any number of steps.
-/

namespace Troe.Identity

open Lib

/-- The text `IREGv1` and two zero bytes. -/
def registryMagic : Bytes := [0x49, 0x52, 0x45, 0x47, 0x76, 0x31, 0, 0]

def headerBytes : ℕ := 64
def registryRecordBytes : ℕ := 64
def membershipBytes : ℕ := 16
def checksumOffset : ℕ := 20

/-- Stable identity-format failures. -/
inductive IdentityError where
  | invalidHeader
  | checksum
  | limit
  | invalidRecord
  | nonCanonical
  | invalidReference
  | membershipCycle
  | exhausted
deriving DecidableEq

/-- The ceilings that bear on a registry. -/
structure IdentityLimits where
  principals : ℕ
  membershipsPerPrincipal : ℕ
  encodedBytes : ℕ

/-- `IdentityLimits::standard`. -/
def IdentityLimits.standard : IdentityLimits where
  principals := 65536
  membershipsPerPrincipal := 256
  encodedBytes := 64 * 1024 * 1024

/-- An opaque nonzero principal identifier of 16 bytes. -/
structure PrincipalId where
  bytes : Bytes
deriving DecidableEq

variable (bytes : Bytes) (offset : ℕ)

/-- `PrincipalId::new`. -/
def PrincipalId.new : Except IdentityError PrincipalId :=
  if bytes = List.replicate 16 0 then .error .invalidRecord else .ok ⟨bytes⟩

/-- The derived order: the first byte that differs decides. -/
def PrincipalId.cmp (a b : PrincipalId) : Ordering := compare a.bytes b.bytes

inductive PrincipalKind where
  | user
  | group
  | service
  | system
deriving DecidableEq

/-- `PrincipalKind::parse`. -/
def PrincipalKind.parse (value : UInt8) : Except IdentityError PrincipalKind :=
  if value = 1 then .ok .user
  else if value = 2 then .ok .group
  else if value = 3 then .ok .service
  else if value = 4 then .ok .system
  else .error .invalidRecord

inductive PrincipalState where
  | active
  | disabled
  | tombstoned
deriving DecidableEq

/-- `PrincipalState::parse`. -/
def PrincipalState.parse (value : UInt8) : Except IdentityError PrincipalState :=
  if value = 1 then .ok .active
  else if value = 2 then .ok .disabled
  else if value = 3 then .ok .tombstoned
  else .error .invalidRecord

/-- An optional lookup number of a principal. -/
inductive CompatibilityId where
  | user (number : ℕ)
  | group (number : ℕ)
deriving DecidableEq

/-- One registry principal. The label is the bytes of its text. -/
structure PrincipalRecord where
  id : PrincipalId
  kind : PrincipalKind
  state : PrincipalState
  compatibility : Option CompatibilityId
  label : Bytes
  memberships : List PrincipalId
deriving DecidableEq

structure IdentityRegistry where
  generation : ℕ
  principals : List PrincipalRecord
deriving DecidableEq

/-- The heap reservations of one parse, each made at most once. -/
inductive Reservation where
  | principals
  | compatibility
  | memberships (index : ℕ)
  | stack (start : ℕ)

/-! ## Fields -/

/-- `read_u16`, `read_u32` and `read_u64`: a little-endian field of `n` bytes. -/
def readUint (n : ℕ) (bytes : Bytes) (offset : ℕ) : Except IdentityError ℕ :=
  okOr (readLe n bytes offset) .invalidHeader

def readU16 : Except IdentityError ℕ := readUint 2 bytes offset
def readU32 : Except IdentityError ℕ := readUint 4 bytes offset
def readU64 : Except IdentityError ℕ := readUint 8 bytes offset

/-- `read_count`; every `u32` is a `usize`. -/
def readCount : Except IdentityError ℕ := readU32 bytes offset

/-- `copy16`. -/
def copy16 : Except IdentityError Bytes :=
  okOr (slice bytes offset 16) .invalidHeader

/-- A byte the bounds of the record guarantee. -/
def byteAt : UInt8 := (bytes[offset]?).getD 0

/-- `checked_table_end`. -/
def checkedTableEnd (start count stride : ℕ) : Except IdentityError ℕ :=
  okOr ((checkedMul 64 count stride).bind (checkedAdd 64 start)) .invalidHeader

/-- `crc32_zeroed`. -/
def crc32Zeroed (zeroOffset : ℕ) : Except IdentityError ℕ := do
  rejectIf (((checkedAdd 64 zeroOffset 4).all (bytes.length < ·)) = true) .invalidHeader
  return (Checksum.crc32WithZeroedField bytes zeroOffset).toNat

/-- `check_common_header`. -/
def checkCommonHeader (image magic : Bytes) (recordBytes : ℕ) (limits : IdentityLimits) :
    Except IdentityError Unit := do
  rejectIf (image.length < headerBytes) .invalidHeader
  rejectIf (limits.encodedBytes < image.length) .invalidHeader
  rejectIf (slice image 0 8 ≠ some magic) .invalidHeader
  rejectIf ((← readU16 image 8) ≠ 1) .invalidHeader
  rejectIf ((← readU16 image 10) ≠ 0) .invalidHeader
  rejectIf ((← readU16 image 12) ≠ headerBytes) .invalidHeader
  rejectIf ((← readU16 image 14) ≠ recordBytes) .invalidHeader
  rejectIf ((← readCount image 16) ≠ image.length) .invalidHeader
  let computed ← crc32Zeroed image checksumOffset
  rejectIf (computed ≠ (← readU32 image checksumOffset)) .checksum

/-! ## Records -/

/-- Where the three tables of an image lie, and what is left of the header. -/
structure Tables where
  principalCount : ℕ
  membershipCount : ℕ
  labelBytes : ℕ
  generation : ℕ
  recordEnd : ℕ
  membershipEnd : ℕ

/-- The header fields and table bounds of `IdentityRegistry::parse`. -/
def parseTables (image : Bytes) (limits : IdentityLimits) : Except IdentityError Tables := do
  checkCommonHeader image registryMagic registryRecordBytes limits
  let principalCount ← readCount image 24
  let membershipCount ← readCount image 28
  let labelBytes ← readCount image 32
  let generation ← readU64 image 36
  rejectIf (generation = 0 ∨ limits.principals < principalCount
    ∨ ((image.take headerBytes).drop 44).any (· ≠ 0)) .limit
  let recordEnd ← checkedTableEnd headerBytes principalCount registryRecordBytes
  let membershipEnd ← checkedTableEnd recordEnd membershipCount membershipBytes
  let expectedEnd ← okOr (checkedAdd 64 membershipEnd labelBytes) .invalidHeader
  rejectIf (expectedEnd ≠ image.length) .invalidHeader
  return { principalCount, membershipCount, labelBytes, generation, recordEnd, membershipEnd }

/-- The principals taken over so far, with the cursors into the other two tables. -/
structure RecordScan where
  principals : List PrincipalRecord := []
  compatibility : List (ℕ × ℕ) := []
  membershipCursor : ℕ := 0
  labelCursor : ℕ := 0

/-- The lookup number a record may carry, which has to suit its kind. -/
def parseCompatibility (tag : UInt8) (value : ℕ) (kind : PrincipalKind) :
    Except IdentityError (Option CompatibilityId) :=
  if tag = 0 ∧ value = 0 then .ok none
  else if tag = 1 ∧ kind = .user then .ok (some (.user value))
  else if tag = 2 ∧ kind = .group then .ok (some (.group value))
  else .error .invalidRecord

/-- The pair a lookup number is compared by. -/
def CompatibilityId.key : CompatibilityId → ℕ × ℕ
  | .user number => (1, number)
  | .group number => (2, number)

/-- One direct membership, above the ones before it and not of the principal itself. -/
def parseMembership (image : Bytes) (recordEnd : ℕ) (id : PrincipalId)
    (memberships : List PrincipalId) (membershipIndex : ℕ) :
    Except IdentityError (List PrincipalId) := do
  let target ← PrincipalId.new (← copy16 image (recordEnd + membershipIndex * membershipBytes))
  rejectIf (target = id ∨ memberships.getLast?.any fun previous => (previous.cmp target).isGE)
    .nonCanonical
  return memberships ++ [target]

/-- The bounded text of a principal, without control characters. -/
def parseLabel : Except IdentityError Bytes := do
  let scalars ← okOr (decodeUtf8 bytes) .invalidRecord
  rejectIf (scalars.any isControl) .invalidRecord
  return bytes

/-- One record of the loop in `IdentityRegistry::parse`. -/
def parseRecord (grants : Reservation → Bool) (image : Bytes) (limits : IdentityLimits)
    (tables : Tables) (scan : RecordScan) (index : ℕ) : Except IdentityError RecordScan := do
  let raw := (image.drop (headerBytes + index * registryRecordBytes)).take registryRecordBytes
  let id ← PrincipalId.new (← copy16 raw 0)
  rejectIf ((scan.principals.getLast?.any fun record => (record.id.cmp id).isGE)
    ∨ byteAt raw 19 ≠ 0 ∨ (raw.drop 36).any (· ≠ 0)) .nonCanonical
  let kind ← PrincipalKind.parse (byteAt raw 16)
  let state ← PrincipalState.parse (byteAt raw 17)
  let compatibilityValue ← readU32 raw 20
  let compatibility ← parseCompatibility (byteAt raw 18) compatibilityValue kind
  let labelOffset ← readCount raw 24
  let labelLength ← readU16 raw 28
  let directCount ← readU16 raw 30
  let directStart ← readCount raw 32
  rejectIf (labelOffset ≠ scan.labelCursor ∨ directStart ≠ scan.membershipCursor
    ∨ 64 < labelLength ∨ limits.membershipsPerPrincipal < directCount
    ∨ state = .tombstoned ∧ (labelLength ≠ 0 ∨ directCount ≠ 0)) .invalidRecord
  let labelEnd ← okOr (checkedAdd 64 scan.labelCursor labelLength) .invalidRecord
  let membershipRecordEnd ← okOr (checkedAdd 64 scan.membershipCursor directCount) .invalidRecord
  rejectIf (tables.labelBytes < labelEnd ∨ tables.membershipCount < membershipRecordEnd)
    .invalidRecord
  let label ← parseLabel
    ((image.drop (tables.membershipEnd + scan.labelCursor)).take (labelEnd - scan.labelCursor))
  rejectIf (grants (.memberships index) = false) .exhausted
  let memberships ←
    (List.range' scan.membershipCursor (membershipRecordEnd - scan.membershipCursor)).foldlM
      (parseMembership image tables.recordEnd id) []
  return {
    principals := scan.principals ++ [{ id, kind, state, compatibility, label, memberships }]
    compatibility := scan.compatibility ++ (compatibility.map CompatibilityId.key).toList
    membershipCursor := membershipRecordEnd
    labelCursor := labelEnd }

/-- Whether two neighbours of a list are equal. -/
def hasTwins : List (ℕ × ℕ) → Bool
  | first :: second :: rest => decide (first = second) || hasTwins (second :: rest)
  | _ => false

/-- `sort_unstable` on pairs: the first components decide, then the second ones. -/
def sortPairs (pairs : List (ℕ × ℕ)) : List (ℕ × ℕ) :=
  pairs.insertionSort fun a b => toLex a ≤ toLex b

/-- `IdentityRegistry::parse` up to the check of the memberships. -/
def parseRecords (grants : Reservation → Bool) (image : Bytes) (limits : IdentityLimits) :
    Except IdentityError IdentityRegistry := do
  let tables ← parseTables image limits
  rejectIf (grants .principals = false) .exhausted
  rejectIf (grants .compatibility = false) .exhausted
  let scan ← (List.range tables.principalCount).foldlM
    (parseRecord grants image limits tables) {}
  rejectIf (scan.membershipCursor ≠ tables.membershipCount
    ∨ scan.labelCursor ≠ tables.labelBytes) .nonCanonical
  rejectIf (hasTwins (sortPairs scan.compatibility)) .nonCanonical
  return { generation := tables.generation, principals := scan.principals }

/-! ## Memberships -/

namespace IdentityRegistry

variable (registry : IdentityRegistry)

/-- `IdentityRegistry::index_of`. -/
def indexOf (id : PrincipalId) : Option (Fin registry.principals.length) :=
  binarySearchBy registry.principals fun record => record.id.cmp id

/-- `IdentityRegistry::get`. -/
def get (id : PrincipalId) : Option PrincipalRecord :=
  (registry.indexOf id).map registry.principals.get

/-- One membership of the first loop of `validate_memberships`. -/
def checkReference (group : PrincipalId) : Except IdentityError Unit := do
  let target ← okOr (registry.get group) .invalidReference
  rejectIf (target.kind ≠ .group ∨ target.state = .tombstoned) .invalidReference

/-- The first loop of `validate_memberships`. -/
def checkReferences : Except IdentityError Unit :=
  registry.principals.forM fun principal => principal.memberships.forM registry.checkReference

/-- The groups a principal is a direct member of, in the order they are visited. -/
def groupsOf (index : Fin registry.principals.length) :
    Except IdentityError (List (Fin registry.principals.length)) := do
  let targets ← (registry.principals.get index).memberships.mapM fun group =>
    okOr (registry.indexOf group) .invalidReference
  return targets.filter fun target => (registry.principals.get target).kind = .group

variable (grants : Reservation → Bool)

/-- One turn of the second loop of `validate_memberships`. -/
def searchFrom (colors : Fin registry.principals.length → Color)
    (start : Fin registry.principals.length) :
    Except IdentityError (Fin registry.principals.length → Color) := do
  if (registry.principals.get start).kind ≠ .group ∨ colors start = .black then return colors
  rejectIf (grants (.stack start) = false) .exhausted
  CycleSearch.walk registry.groupsOf .membershipCycle colors [(start, false)]

/-- The second loop of `validate_memberships`. -/
def checkCycles : Except IdentityError Unit := do
  let _ ← (List.finRange registry.principals.length).foldlM (registry.searchFrom grants)
    fun _ => .white
  return ()

/-- `IdentityRegistry::validate_memberships`. -/
def validateMemberships : Except IdentityError Unit := do
  registry.checkReferences
  registry.checkCycles grants

/-- `IdentityRegistry::parse`. -/
def parse (image : Bytes) (limits : IdentityLimits) : Except IdentityError IdentityRegistry := do
  let registry ← parseRecords grants image limits
  registry.validateMemberships grants
  return registry

end IdentityRegistry

end Troe.Identity
