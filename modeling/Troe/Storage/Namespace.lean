import Troe.Storage.FsApi
import Troe.Lib.Act
import Mathlib.Data.List.Infix

/-!
# Directory capabilities of the namespace

The namespace composes fixed nodes with mounted filesystem providers. A directory capability is a
directory fixed when a system generation is activated, with the provider it lies in and the rights
it carries. A service resolves the relative paths of an application beneath it.

`Namespace.calls` is not in the source. It records each provider operation with the namespace path
it is made for, the mount it goes to and the path it hands the provider.
-/

namespace Troe.Fs

open Troe.Lib

/-! ## The namespace -/

/-- `Node`. -/
inductive Node where
  | directory
  | file (bytes : List UInt8)

/-- `DirectoryRights`: closed rights of a directory capability. -/
structure DirectoryRights where
  bits : UInt8

namespace DirectoryRights

/-- `READ`. -/
def read : DirectoryRights := ⟨1⟩

/-- `MUTATE`. -/
def mutate : DirectoryRights := ⟨2⟩

/-- `READ_MUTATE`. -/
def readMutate : DirectoryRights := ⟨read.bits ||| mutate.bits⟩

/-- `allows`. -/
def allows (rights required : DirectoryRights) : Bool :=
  rights.bits &&& required.bits = required.bits

end DirectoryRights

/-- `DirectoryCapability`. -/
structure DirectoryCapability where
  root : Path
  providerRoot : Option Path
  generation : ℕ
  rights : DirectoryRights

/-- The part of `FileSystemProvider` that path resolution calls. Providers take `&mut self`. -/
class FileSystemProvider (π : Type) where
  metadataNoFollow : π → Path → Except FsError FileMetadata × π

/-- `ProviderMount`. -/
structure ProviderMount (π : Type) where
  path : Path
  provider : π
  writable : Bool

/-- `MountAlias`. Its field `prefix` is `subtree` here. -/
structure MountAlias where
  path : Path
  target : ℕ
  subtree : Path

/-- A provider operation: made for the path `path` of the namespace, it goes to the mount with index
`mount`, which is handed `relative`. -/
structure ProviderCall where
  mount : ℕ
  path : Path
  relative : Path

/-- `Namespace`, with the provider operations made so far. The target of an alias is a mount. -/
structure Namespace (π : Type) where
  nodes : List (Path × Node)
  mounts : List (ProviderMount π)
  aliases : List MountAlias
  calls : List ProviderCall
  targets : ∀ entry ∈ aliases, entry.target < mounts.length

/-- `str::strip_prefix`. -/
def stripPrefix (stem path : Path) : Option Path :=
  if stem <+: path then some (path.drop stem.length) else none

/-- What follows `stem` in `path`, when a separator comes first. -/
def strictlyBelow (stem path : Path) : Option Path :=
  (stripPrefix stem path).filter fun suffix => suffix.head? = some '/'

/-- What follows `stem` in `path`, when it is nothing or a separator comes first. -/
def below (stem path : Path) : Option Path :=
  (stripPrefix stem path).filter fun suffix => suffix = [] ∨ suffix.head? = some '/'

/-- The path a mount at `mountPath` hands its provider. -/
def mountRelative (mountPath path : Path) : Option Path :=
  if path = mountPath then some ['/'] else strictlyBelow mountPath path

/-- The path an alias hands the provider of its target. -/
def MountAlias.resolve (entry : MountAlias) (path : Path) : Option (ℕ × Path) := do
  let relative ← if path = entry.path then some [] else strictlyBelow entry.path path
  let resolved := entry.subtree ++ relative
  return (entry.target, if resolved = [] then ['/'] else resolved)

namespace Namespace

variable {π : Type}

/-- `mount_for_path`: the index of a mount, and the path in its provider. -/
def mountForPath (ns : Namespace π) (path : Path) : Option (ℕ × Path) :=
  let owned := (ns.mounts.map (·.path)).zipIdx.findSome? fun (mountPath, index) =>
    (mountRelative mountPath path).map fun relative => (index, relative)
  owned.or (ns.aliases.findSome? (·.resolve path))

/-- The path at which the provider of `path` is mounted. -/
def providerRoot (ns : Namespace π) (path : Path) : Option Path := do
  let (index, _) ← ns.mountForPath path
  (ns.mounts.map (·.path))[index]?

/-- Put back a provider after a call, and record the call. -/
def record (ns : Namespace π) (call : ProviderCall) (provider : π) : Namespace π :=
  { ns with
    mounts := ns.mounts.modify call.mount fun mount => { mount with provider }
    calls := ns.calls ++ [call]
    targets := fun entry hentry => by
      rw [List.length_modify]
      exact ns.targets entry hentry }

variable [FileSystemProvider π]

/-- A provider operation. The index comes from `mount_for_path`, where it is in bounds. -/
def metadataOfMount (call : ProviderCall) : Act (Namespace π) FsError FileMetadata := fun ns =>
  match ns.mounts[call.mount]? with
  | none => (.error .notFound, ns)
  | some mount =>
    let (outcome, provider) := FileSystemProvider.metadataNoFollow mount.provider call.relative
    (outcome, ns.record call provider)

/-- The metadata of a node that no provider holds. -/
def metadataOfNode : Option Node → Except FsError FileMetadata
  | some .directory => .ok ⟨.directory, 0, none, none, none⟩
  | some (.file bytes) => do
    rejectIf (2 ^ 64 ≤ bytes.length) .overflow
    return ⟨.file, bytes.length, none, none, none⟩
  | none => .error .notFound

variable (capability : DirectoryCapability) (activeGeneration : ℕ) (path : Path)

/-- `metadata_no_follow_absolute`. -/
def metadataNoFollowAbsolute : Act (Namespace π) FsError FileMetadata := do
  let path ← Act.ofExcept (canonicalize ['/'] path)
  let ns ← Act.get
  match ns.mountForPath path with
  | some (index, relative) => metadataOfMount ⟨index, path, relative⟩
  | none => Act.ofExcept (metadataOfNode (ns.nodes.lookup path))

/-! ## Resolution -/

/-- The loop of `validate_no_symlink_path` over the components below the root. -/
def validateComponents (allowMissingFinal : Bool) (current : Path) :
    List Component → Act (Namespace π) FsError Unit
  | [] => pure ()
  | component :: rest => do
    let current := (if current = ['/'] then current else current ++ ['/']) ++ component
    match ← Act.attempt (metadataNoFollowAbsolute current) with
    | .error error =>
      if error = .notFound ∧ rest = [] ∧ allowMissingFinal then pure () else Act.fail error
    | .ok metadata =>
      if metadata.kind = .symlink then
        if rest = [] then pure () else Act.fail .invalid
      else if rest ≠ [] ∧ metadata.kind ≠ .directory then Act.fail .wrongType
      else validateComponents allowMissingFinal current rest

/-- `validate_no_symlink_path`. -/
def validateNoSymlinkPath (root target : Path) (allowMissingFinal : Bool) :
    Act (Namespace π) FsError Unit := do
  let suffix ← Act.okOr (below root target) .invalid
  let rootMetadata ← metadataNoFollowAbsolute root
  Act.reject (rootMetadata.kind ≠ .directory) .wrongType
  let components := ((suffix.dropWhile (· = '/')).splitOn '/').filter (· ≠ [])
  validateComponents allowMissingFinal root components

/-- A final symbolic link is rejected unless it is asked for. -/
def rejectFinalSymlink (allowFinalSymlink : Bool) : Act (Namespace π) FsError Unit :=
  if allowFinalSymlink then pure ()
  else do
    let outcome ← Act.attempt (metadataNoFollowAbsolute path)
    Act.reject (outcome.toOption.any (·.kind = .symlink)) .invalid

/-- `resolve_directory_path`. -/
def resolveDirectoryPath (required : DirectoryRights) (allowMissingFinal allowFinalSymlink : Bool) :
    Act (Namespace π) FsError Path := do
  Act.reject (activeGeneration = 0 ∨ activeGeneration ≠ capability.generation ∨
    ¬ capability.rights.allows required) .readOnly
  let resolved ← Act.ofExcept (canonicalizeBeneath capability.root path)
  let ns ← Act.get
  Act.reject (ns.providerRoot resolved ≠ capability.providerRoot) .invalid
  validateNoSymlinkPath capability.root resolved allowMissingFinal
  rejectFinalSymlink resolved allowFinalSymlink
  return resolved

/-- `resolve_directory_read`. -/
def resolveDirectoryRead : Act (Namespace π) FsError Path :=
  resolveDirectoryPath capability activeGeneration path .read false false

/-- `resolve_directory_mutation`. -/
def resolveDirectoryMutation (allowMissingFinal : Bool) : Act (Namespace π) FsError Path :=
  resolveDirectoryPath capability activeGeneration path .mutate allowMissingFinal false

/-- `resolve_directory_link`. -/
def resolveDirectoryLink (mutation : Bool) : Act (Namespace π) FsError Path := do
  let required := if mutation then DirectoryRights.mutate else DirectoryRights.read
  let resolved ← resolveDirectoryPath capability activeGeneration path required false true
  let metadata ← metadataNoFollowAbsolute resolved
  Act.reject (metadata.kind ≠ .symlink) .wrongType
  return resolved

/-- `grant_directory`. -/
def grantDirectory (root : Path) (generation : ℕ) (rights : DirectoryRights) :
    Act (Namespace π) FsError DirectoryCapability := do
  Act.reject (generation = 0) .invalid
  let normalizedRoot ← Act.ofExcept (canonicalize ['/'] root)
  Act.reject (normalizedRoot = ['/'] ∨ normalizedRoot ≠ root) .invalid
  let metadata ← metadataNoFollowAbsolute normalizedRoot
  Act.reject (metadata.kind ≠ .directory) .wrongType
  validateNoSymlinkPath normalizedRoot normalizedRoot false
  let ns ← Act.get
  return ⟨normalizedRoot, ns.providerRoot normalizedRoot, generation, rights⟩

/-- What an application asks of a directory capability. -/
inductive Request where
  | read
  | mutation (allowMissingFinal : Bool)
  | link (mutation : Bool)

/-- The right a request needs. -/
def Request.required : Request → DirectoryRights
  | .read => .read
  | .mutation _ => .mutate
  | .link mutating => if mutating then .mutate else .read

/-- Resolve a path for a request. -/
def resolve : Request → Act (Namespace π) FsError Path
  | .read => resolveDirectoryRead capability activeGeneration path
  | .mutation allowMissingFinal =>
    resolveDirectoryMutation capability activeGeneration path allowMissingFinal
  | .link mutation => resolveDirectoryLink capability activeGeneration path mutation

end Namespace

end Troe.Fs
