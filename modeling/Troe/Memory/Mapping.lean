import Troe.Memory.Range
import Troe.Lib.Act

/-!
# Virtual ranges and the mapping plan (`troe-memory::mapping`)

`Mapping` values come from the three checked constructors only; a plan grows by `insert`, which
keeps what it has when it leaves with an error.
-/

namespace Troe.Memory

open Lib

/-- Failures produced while constructing a virtual mapping plan. -/
inductive MappingPlanError where
  | unaligned
  | empty
  | overflow
  | lengthMismatch
  | unreadable
  | writableExecutable
  | executableDevice
  | invalidUserOwner
  | virtualOverlap
  | physicalOverlap
  | tooManyMappings

/-- A half-open virtual address range. -/
structure VirtualRange where
  start : ℕ
  finish : ℕ

/-- `VirtualRange::from_pages`. -/
def VirtualRange.fromPages (start pageCount : ℕ) : Except MappingPlanError VirtualRange := do
  let finish ← endOfPages .unaligned .empty .overflow start pageCount
  return { start, finish }

/-- `VirtualRange::byte_count`. -/
def VirtualRange.byteCount (range : VirtualRange) : ℕ := range.finish - range.start

/-- Access permissions for one virtual mapping. -/
structure MappingPermissions where
  read : Bool
  write : Bool
  execute : Bool

/-- Cache and ordering behaviour required by a mapping. -/
inductive MappingMemoryType where
  | normal
  | device
deriving DecidableEq

/-- Component that owns the mapped bytes. -/
inductive MappingOwner where
  | kernelImage
  | kernelRuntime
  | machineDevice
  | isolatedTask
deriving DecidableEq

/-- Lifetime promised for a mapping. -/
inductive MappingLifetime where
  | boot
  | kernel
  | task
deriving DecidableEq

/-- Least-privileged execution level allowed to traverse one mapping. -/
inductive MappingPrivilege where
  | kernel
  | user

/-- One virtual-to-physical mapping. -/
structure Mapping where
  virtualRange : VirtualRange
  physicalRange : PhysicalRange
  permissions : MappingPermissions
  memoryType : MappingMemoryType
  owner : MappingOwner
  lifetime : MappingLifetime
  remappable : Bool
  privilege : MappingPrivilege

namespace Mapping

/-- `Mapping::new`. -/
def new (virtualRange : VirtualRange) (physicalRange : PhysicalRange)
    (permissions : MappingPermissions) (memoryType : MappingMemoryType) (owner : MappingOwner)
    (lifetime : MappingLifetime) (remappable : Bool) : Except MappingPlanError Mapping := do
  rejectIf (virtualRange.byteCount ≠ physicalRange.byteCount) .lengthMismatch
  rejectIf (permissions.read = false) .unreadable
  rejectIf (permissions.write ∧ permissions.execute) .writableExecutable
  rejectIf (memoryType = .device ∧ permissions.execute) .executableDevice
  return { virtualRange, physicalRange, permissions, memoryType, owner, lifetime, remappable,
           privilege := .kernel }

/-- `Mapping::user`. -/
def user (virtualRange : VirtualRange) (physicalRange : PhysicalRange)
    (permissions : MappingPermissions) (owner : MappingOwner) (lifetime : MappingLifetime) :
    Except MappingPlanError Mapping := do
  rejectIf (owner ≠ .isolatedTask ∨ lifetime ≠ .task) .invalidUserOwner
  let mapping ← new virtualRange physicalRange permissions .normal owner lifetime false
  return { mapping with privilege := .user }

/-- `Mapping::identity`. -/
def identity (range : PhysicalRange) (permissions : MappingPermissions)
    (memoryType : MappingMemoryType) (owner : MappingOwner) (lifetime : MappingLifetime)
    (remappable : Bool) : Except MappingPlanError Mapping := do
  let virtualRange ← VirtualRange.fromPages range.start range.pageCount
  new virtualRange range permissions memoryType owner lifetime remappable

/-- The mappings there are: the results of the constructors on ranges that `from_pages` made. -/
inductive Built (mapping : Mapping) : Prop
  | new {vstart vpages pstart ppages : ℕ} {virtualRange : VirtualRange}
      {physicalRange : PhysicalRange} {permissions : MappingPermissions}
      {memoryType : MappingMemoryType} {owner : MappingOwner} {lifetime : MappingLifetime}
      {remappable : Bool} (hvirtual : VirtualRange.fromPages vstart vpages = .ok virtualRange)
      (hphysical : PhysicalRange.fromPages pstart ppages = .ok physicalRange)
      (h : Mapping.new virtualRange physicalRange permissions memoryType owner lifetime remappable
        = .ok mapping)
  | user {vstart vpages pstart ppages : ℕ} {virtualRange : VirtualRange}
      {physicalRange : PhysicalRange} {permissions : MappingPermissions} {owner : MappingOwner}
      {lifetime : MappingLifetime}
      (hvirtual : VirtualRange.fromPages vstart vpages = .ok virtualRange)
      (hphysical : PhysicalRange.fromPages pstart ppages = .ok physicalRange)
      (h : Mapping.user virtualRange physicalRange permissions owner lifetime = .ok mapping)
  | identity {pstart ppages : ℕ} {range : PhysicalRange} {permissions : MappingPermissions}
      {memoryType : MappingMemoryType} {owner : MappingOwner} {lifetime : MappingLifetime}
      {remappable : Bool} (hphysical : PhysicalRange.fromPages pstart ppages = .ok range)
      (h : Mapping.identity range permissions memoryType owner lifetime remappable = .ok mapping)

end Mapping

/-- `physical_alias_is_safe`. -/
def physicalAliasIsSafe (left right : Mapping) : Bool :=
  if left.memoryType ≠ right.memoryType then false
  else
    let writable := left.permissions.write || right.permissions.write
    let executable := left.permissions.execute || right.permissions.execute
    !(writable && executable)

/-- `ranges_overlap`. -/
def rangesOverlap (left right : PhysicalRange) : Bool :=
  left.start < right.finish && right.start < left.finish

/-- `slice::partition_point` on a slice that the predicate splits in two: the index of the first
element it does not hold of. -/
def partitionPoint {α : Type} (p : α → Bool) (xs : List α) : ℕ := (xs.takeWhile p).length

/-- Sorted, virtually non-overlapping mappings for one address space. -/
structure MappingPlan where
  mappings : List Mapping

namespace MappingPlan

/-- `MappingPlan::new`. -/
def new : MappingPlan := { mappings := [] }

/-- `MappingPlan::insert`; the flag is the heap's answer to `try_reserve`. -/
def insert (mapping : Mapping) (granted : Bool) : Act MappingPlan MappingPlanError Unit := do
  let self ← .get
  .reject (maxMappings ≤ self.mappings.length) .tooManyMappings
  let start := mapping.virtualRange.start
  let index := partitionPoint (fun existing => existing.virtualRange.start < start) self.mappings
  .reject (0 < index ∧
    self.mappings[index - 1]?.any fun existing => start < existing.virtualRange.finish)
    .virtualOverlap
  .reject (self.mappings[index]?.any fun existing =>
    existing.virtualRange.start < mapping.virtualRange.finish) .virtualOverlap
  .forEach self.mappings fun existing =>
    .reject (rangesOverlap existing.physicalRange mapping.physicalRange ∧
      physicalAliasIsSafe existing mapping = false) .physicalOverlap
  .reject (granted = false) .tooManyMappings
  .modify fun self => { self with mappings := self.mappings.insertIdx index mapping }

/-- The nested loops of `enforces_global_w_xor_x`, from one mapping on. -/
def aliasesAreSafe : List Mapping → Bool
  | [] => true
  | mapping :: rest =>
    if mapping.permissions.write && mapping.permissions.execute then false
    else if rest.any fun other => rangesOverlap mapping.physicalRange other.physicalRange &&
      !physicalAliasIsSafe mapping other then false
    else aliasesAreSafe rest

/-- `MappingPlan::enforces_global_w_xor_x`. -/
def enforcesGlobalWXorX (self : MappingPlan) : Bool := aliasesAreSafe self.mappings

end MappingPlan

end Troe.Memory
