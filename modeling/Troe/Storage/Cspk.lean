import Troe.Application.Sha256
import Troe.Lib.Sorted
import Troe.Storage.Checksum

/-!
# Immutable content packs (`troe-fmt-cspk`)

A pack is a header, one record for each object in the order of their digests, and the objects
without gaps. `generation_roots` follows the chain of generation manifests, and `retain` rebuilds a
pack from the objects it is given. Whether the heap grants a reservation is the environment's choice
and a parameter.
-/

namespace Troe.Cspk

open Lib Checksum

/-! ## Limits and errors -/

/-- The bytes of `CSPKv1` and two zeros. -/
def contentPackMagic : Bytes := [67, 83, 80, 75, 118, 49, 0, 0]

/-- The bytes of `GMANv1` and two zeros. -/
def generationMagic : Bytes := [71, 77, 65, 78, 118, 49, 0, 0]

/-- The bytes of `ISECv1` and two zeros. -/
def securityMagic : Bytes := [73, 83, 69, 67, 118, 49, 0, 0]

def headerBytes : ℕ := 64
def recordBytes : ℕ := 64
def maxPackBytes : ℕ := 4 * 1024 * 1024
def maxObjects : ℕ := 64
def maxObjectBytes : ℕ := 1024 * 1024
def generationManifestBytes : ℕ := 128
def securityManifestBytes : ℕ := 192
def checksumOffset : ℕ := 20
def generationChecksumOffset : ℕ := 88
def securityChecksumOffset : ℕ := 152
def generationPrevious : UInt16 := 1
def generationSecurity : UInt16 := 2
def maxRootsPerGeneration : ℕ := 7

inductive ContentError where
  | invalidHeader
  | checksum
  | limitExceeded
  | invalidRecord
  | invalidManifest
  | metadataExhausted
  | missingObject
deriving DecidableEq

/-! ## Digests -/

/-- Block `index` of the padded message. -/
def sha256Block (input : Bytes) (blocks index : ℕ) : Bytes :=
  let block := (List.range 64).map fun i =>
    let absolute := index * 64 + i
    if absolute < input.length then input.getD absolute 0
    else if absolute = input.length then 0x80
    else 0
  if index + 1 = blocks then splice block 56 (beBytes 8 (input.length * 8 % 2 ^ 64)) else block

/-- `sha256`: the same compression as the incremental hash, over a complete message. -/
def sha256 (input : Bytes) : Bytes :=
  let blocks := (input.length + 9 + 63) / 64
  let state := (List.range blocks).foldl
    (fun state index => Application.compress state (sha256Block input blocks index)) .initial
  state.words.flatMap fun word => beBytes 4 word.toNat

theorem length_sha256 (input : Bytes) : (sha256 input).length = 32 := by
  simp [sha256, Application.HashState.words]

/-- A content identity of 32 bytes. -/
structure ContentDigest where
  bytes : Bytes
  length_eq : bytes.length = 32
deriving DecidableEq

namespace ContentDigest

def of (bytes : Bytes) : ContentDigest := ⟨sha256 bytes, length_sha256 bytes⟩

/-- The derived order: the first byte that differs decides. -/
def cmp (a b : ContentDigest) : Ordering := compare a.bytes b.bytes

/-- All bytes are zero. -/
def IsZero (digest : ContentDigest) : Prop := digest.bytes = List.replicate 32 0

instance (digest : ContentDigest) : Decidable digest.IsZero :=
  inferInstanceAs (Decidable (_ = _))

end ContentDigest

/-! ## Reads -/

variable (bytes : Bytes) (offset : ℕ)

def readU16 : Except ContentError ℕ :=
  okOr (readLe 2 bytes offset) .invalidHeader

def readU32 : Except ContentError ℕ :=
  okOr (readLe 4 bytes offset) .invalidHeader

def readU64 : Except ContentError ℕ :=
  okOr (readLe 8 bytes offset) .invalidManifest

/-- The 32 bytes of a digest. -/
def copyDigest : Except ContentError ContentDigest :=
  match h : slice bytes offset 32 with
  | none => .error .invalidManifest
  | some field => .ok ⟨field, length_of_slice_eq_some h⟩

/-- `&bytes[start..stop]`, after a check of the length. -/
def span (start stop : ℕ) : Bytes := (bytes.drop start).take (stop - start)

/-- `bytes.iter().any(|byte| *byte != 0)` -/
def anyNonzero : Bool := bytes.any fun byte => byte ≠ 0

/-! ## Manifests -/

structure GenerationManifest where
  generation : ℕ
  config : ContentDigest
  previous : Option ContentDigest
  security : Option ContentDigest

namespace GenerationManifest

def new (generation : ℕ) (config : ContentDigest) (previous : Option ContentDigest) :
    Except ContentError GenerationManifest := do
  rejectIf (generation = 0 ∨ config.IsZero ∨ ∃ digest ∈ previous, digest.IsZero) .invalidManifest
  .ok ⟨generation, config, previous, none⟩

def withSecurity (manifest : GenerationManifest) (security : ContentDigest) :
    Except ContentError GenerationManifest := do
  rejectIf security.IsZero .invalidManifest
  .ok { manifest with security := some security }

/-- A digest field that is present exactly when its flag is set. -/
def optionalDigest (bytes : Bytes) (flags flag : UInt16) (offset : ℕ) :
    Except ContentError (Option ContentDigest) := do
  let digest ← copyDigest bytes offset
  if flags &&& flag ≠ 0 then .ok (some digest)
  else do
    rejectIf (¬ digest.IsZero) .invalidManifest
    .ok none

def parse (bytes : Bytes) : Except ContentError GenerationManifest := do
  rejectIf (bytes.length ≠ generationManifestBytes ∨ bytes.take 8 ≠ generationMagic)
    .invalidManifest
  let major ← readU16 bytes 8
  let minor ← readU16 bytes 10
  let size ← readU16 bytes 12
  rejectIf (major ≠ 1 ∨ minor ≠ 0 ∨ size ≠ 128 ∨ anyNonzero (span bytes 92 96) = true)
    .invalidManifest
  let flags := UInt16.ofNat (← readU16 bytes 14)
  let stored ← readU32 bytes generationChecksumOffset
  rejectIf (flags &&& ~~~ (generationPrevious ||| generationSecurity) ≠ 0 ∨
    (crc32WithZeroedField bytes generationChecksumOffset).toNat ≠ stored) .invalidManifest
  let config ← copyDigest bytes 24
  let previous ← optionalDigest bytes flags generationPrevious 56
  let security ← optionalDigest bytes flags generationSecurity 96
  let generation ← readU64 bytes 16
  let manifest ← new generation config previous
  match security with
  | some digest => manifest.withSecurity digest
  | none => .ok manifest

def encode (manifest : GenerationManifest) : Bytes :=
  let bytes := List.replicate generationManifestBytes 0
  let bytes := splice bytes 0 generationMagic
  let bytes := splice bytes 8 (leBytes 2 1)
  let bytes := splice bytes 12 (leBytes 2 128)
  let flags := (if manifest.previous.isSome then generationPrevious else 0) |||
    (if manifest.security.isSome then generationSecurity else 0)
  let bytes := splice bytes 14 (leBytes 2 flags.toNat)
  let bytes := splice bytes 16 (leBytes 8 manifest.generation)
  let bytes := splice bytes 24 manifest.config.bytes
  let bytes := manifest.previous.elim bytes fun previous => splice bytes 56 previous.bytes
  let bytes := manifest.security.elim bytes fun security => splice bytes 96 security.bytes
  let checksum := crc32WithZeroedField bytes generationChecksumOffset
  splice bytes generationChecksumOffset (leBytes 4 checksum.toNat)

end GenerationManifest

structure SecurityManifest where
  generation : ℕ
  registry : ContentDigest
  mapping : ContentDigest
  mount : ContentDigest
  acl : ContentDigest

namespace SecurityManifest

def new (generation : ℕ) (registry mapping mount acl : ContentDigest) :
    Except ContentError SecurityManifest := do
  let digests := [registry, mapping, mount, acl]
  rejectIf (generation = 0 ∨ (∃ digest ∈ digests, digest.IsZero) ∨ ¬ digests.Nodup)
    .invalidManifest
  .ok ⟨generation, registry, mapping, mount, acl⟩

def parse (bytes : Bytes) : Except ContentError SecurityManifest := do
  rejectIf (bytes.length ≠ securityManifestBytes ∨ bytes.take 8 ≠ securityMagic) .invalidManifest
  let major ← readU16 bytes 8
  let minor ← readU16 bytes 10
  let size ← readU16 bytes 12
  let reserved ← readU16 bytes 14
  let stored ← readU32 bytes securityChecksumOffset
  rejectIf (major ≠ 1 ∨ minor ≠ 0 ∨ size ≠ securityManifestBytes ∨ reserved ≠ 0 ∨
    anyNonzero (bytes.drop 156) = true ∨
    (crc32WithZeroedField bytes securityChecksumOffset).toNat ≠ stored) .invalidManifest
  let generation ← readU64 bytes 16
  let registry ← copyDigest bytes 24
  let mapping ← copyDigest bytes 56
  let mount ← copyDigest bytes 88
  let acl ← copyDigest bytes 120
  new generation registry mapping mount acl

end SecurityManifest

/-! ## Packs -/

inductive ObjectKind where
  | systemConfig
  | application
  | generationManifest
  | data
  | identityRegistry
  | identityMapping
  | mountPolicy
  | nativeAcl
  | securityManifest
deriving DecidableEq

def ObjectKind.parse : UInt8 → Except ContentError ObjectKind
  | 1 => .ok .systemConfig
  | 2 => .ok .application
  | 3 => .ok .generationManifest
  | 4 => .ok .data
  | 5 => .ok .identityRegistry
  | 6 => .ok .identityMapping
  | 7 => .ok .mountPolicy
  | 8 => .ok .nativeAcl
  | 9 => .ok .securityManifest
  | _ => .error .invalidRecord

/-- `kind as u8` -/
def ObjectKind.byte : ObjectKind → UInt8
  | .systemConfig => 1
  | .application => 2
  | .generationManifest => 3
  | .data => 4
  | .identityRegistry => 5
  | .identityMapping => 6
  | .mountPolicy => 7
  | .nativeAcl => 8
  | .securityManifest => 9

structure Record where
  digest : ContentDigest
  kind : ObjectKind
  offset : ℕ
  length : ℕ

structure ContentObject where
  digest : ContentDigest
  kind : ObjectKind
  bytes : Bytes

structure ContentPack where
  image : Bytes
  records : List Record

/-- Manifests must be well formed inside a pack. -/
def checkManifest (kind : ObjectKind) (bytes : Bytes) : Except ContentError Unit :=
  if kind = .generationManifest then do
    let _manifest ← GenerationManifest.parse bytes
    .ok ()
  else if kind = .securityManifest then do
    let _manifest ← SecurityManifest.parse bytes
    .ok ()
  else .ok ()

/-- One turn of the loop over the records. -/
def recordStep (image : Bytes) (parsed : List Record × ℕ) (index : ℕ) :
    Except ContentError (List Record × ℕ) := do
  let start := headerBytes + index * recordBytes
  let raw := span image start (start + recordBytes)
  rejectIf (anyNonzero (span raw 33 40) = true ∨ anyNonzero (raw.drop 48) = true) .invalidRecord
  let digest ← (copyDigest raw 0).mapError fun _ => .invalidRecord
  let kind ← ObjectKind.parse (raw.getD 32 0)
  let offset ← readU32 raw 40
  let length ← readU32 raw 44
  let stop ← okOr (checkedAdd 64 offset length) .invalidRecord
  rejectIf (length = 0 ∨ maxObjectBytes < length ∨ offset ≠ parsed.2 ∨ image.length < stop ∨
    parsed.1.getLast?.any (fun prior => (prior.digest.cmp digest).isGE) = true ∨
    ContentDigest.of (span image offset stop) ≠ digest) .invalidRecord
  checkManifest kind (span image offset stop)
  .ok (parsed.1 ++ [⟨digest, kind, offset, length⟩], stop)

namespace ContentPack

def parse (granted : Bool) (image : Bytes) : Except ContentError ContentPack := do
  rejectIf (image.length < headerBytes ∨ maxPackBytes < image.length ∨
    image.take 8 ≠ contentPackMagic) .invalidHeader
  let major ← readU16 image 8
  let minor ← readU16 image 10
  let header ← readU16 image 12
  let record ← readU16 image 14
  let total ← readU32 image 16
  rejectIf (major ≠ 1 ∨ minor ≠ 0 ∨ header ≠ 64 ∨ record ≠ 64 ∨ total ≠ image.length ∨
    anyNonzero (span image 26 headerBytes) = true) .invalidHeader
  let count ← readU16 image 24
  rejectIf (count = 0 ∨ maxObjects < count) .limitExceeded
  let table ← okOr (checkedMul 64 count recordBytes) .limitExceeded
  let tableEnd ← okOr (checkedAdd 64 headerBytes table) .limitExceeded
  let stored ← readU32 image checksumOffset
  rejectIf (image.length < tableEnd ∨ (crc32WithZeroedField image checksumOffset).toNat ≠ stored)
    .checksum
  rejectIf (granted = false) .metadataExhausted
  let (records, expectedOffset) ← (List.range count).foldlM (recordStep image) ([], tableEnd)
  rejectIf (expectedOffset ≠ image.length) .invalidRecord
  .ok ⟨image, records⟩

/-- The object of a record. -/
def object (pack : ContentPack) (record : Record) : ContentObject :=
  ⟨record.digest, record.kind, span pack.image record.offset (record.offset + record.length)⟩

def get (pack : ContentPack) (digest : ContentDigest) : Option ContentObject := do
  let index ← binarySearchBy pack.records fun record => record.digest.cmp digest
  some (pack.object (pack.records.get index))

def objects (pack : ContentPack) : List ContentObject := pack.records.map pack.object

end ContentPack

/-! ## Roots -/

def pushUniqueRoot (roots : List ContentDigest) (digest : ContentDigest) : List ContentDigest :=
  if digest ∈ roots then roots else roots ++ [digest]

namespace ContentPack

variable (pack : ContentPack)

/-- An object that must be there and be of a kind. -/
def getKind (digest : ContentDigest) (kind : ObjectKind) : Except ContentError ContentObject := do
  let object ← okOr (pack.get digest) .missingObject
  rejectIf (object.kind ≠ kind) .invalidManifest
  .ok object

/-- One turn of the loop over the typed objects of a security manifest. -/
def typedStep (roots : List ContentDigest) (typed : ContentDigest × ObjectKind) :
    Except ContentError (List ContentDigest) := do
  let _referenced ← pack.getKind typed.1 typed.2
  .ok (pushUniqueRoot roots typed.1)

/-- The security part of one turn of the loop over the generations. -/
def securityRoots (manifest : GenerationManifest) (roots : List ContentDigest) :
    Except ContentError (List ContentDigest) :=
  match manifest.security with
  | none => .ok roots
  | some digest => do
    let object ← pack.getKind digest .securityManifest
    let security ← SecurityManifest.parse object.bytes
    rejectIf (security.generation ≠ manifest.generation) .invalidManifest
    let typed := [(security.registry, ObjectKind.identityRegistry),
      (security.mapping, .identityMapping), (security.mount, .mountPolicy),
      (security.acl, .nativeAcl)]
    typed.foldlM pack.typedStep (pushUniqueRoot roots digest)

/-- One turn of the loop over the generations: the manifest and the roots with what it names. -/
def visitGeneration (newer : Option ℕ) (roots : List ContentDigest) (digest : ContentDigest) :
    Except ContentError (GenerationManifest × List ContentDigest) := do
  rejectIf (digest ∈ roots) .invalidManifest
  let object ← pack.getKind digest .generationManifest
  let manifest ← GenerationManifest.parse object.bytes
  rejectIf (∃ generation ∈ newer, generation ≤ manifest.generation) .invalidManifest
  let _config ← pack.getKind manifest.config .systemConfig
  let roots ← pack.securityRoots manifest
    (pushUniqueRoot (pushUniqueRoot roots digest) manifest.config)
  .ok (manifest, roots)

/-- The loop over the generations, with the number of turns left. -/
def rootsLoop (pack : ContentPack) (newer : Option ℕ) (roots : List ContentDigest) :
    ℕ → Option ContentDigest → Except ContentError (List ContentDigest)
  | _, none => .ok roots
  | 0, some _ => .error .invalidManifest
  | remaining + 1, some digest => do
    let (manifest, roots) ← pack.visitGeneration newer roots digest
    pack.rootsLoop (some manifest.generation) roots remaining manifest.previous

def generationRoots (granted : Bool) (pack : ContentPack) (activeManifest : ContentDigest)
    (maxGenerations : ℕ) : Except ContentError (List ContentDigest) := do
  rejectIf (maxGenerations = 0 ∨ maxObjects / maxRootsPerGeneration < maxGenerations)
    .limitExceeded
  rejectIf (granted = false) .metadataExhausted
  pack.rootsLoop none [] maxGenerations (some activeManifest)

/-! ## Rebuilding -/

/-- One turn of the loop that collects the identities to keep. -/
def identityStep (maxObjects : ℕ) (identities : List ContentDigest) (digest : ContentDigest) :
    Except ContentError (List ContentDigest) := do
  rejectIf (pack.get digest = none) .missingObject
  if digest ∈ identities then .ok identities
  else do
    rejectIf (identities.length = maxObjects) .limitExceeded
    .ok (identities ++ [digest])

/-- The order of `sort_unstable`. -/
def NotAbove (a b : ContentDigest) : Prop := a.cmp b ≠ .gt

instance : DecidableRel NotAbove := fun a b => inferInstanceAs (Decidable (a.cmp b ≠ .gt))

/-- One turn of the loop that adds up the object sizes. -/
def totalStep (total : ℕ) (digest : ContentDigest) : Except ContentError ℕ := do
  let object ← okOr (pack.get digest) .missingObject
  okOr (checkedAdd 64 total object.bytes.length) .limitExceeded

/-- `u32::try_from` -/
def tryU32 (n : ℕ) : Option ℕ := if n < 2 ^ 32 then some n else none

/-- One turn of the loop that writes the records and the objects. -/
def writeStep (written : Bytes × ℕ) (item : ContentDigest × ℕ) :
    Except ContentError (Bytes × ℕ) := do
  let object ← okOr (pack.get item.1) .missingObject
  let record := headerBytes + item.2 * recordBytes
  let output := splice written.1 record item.1.bytes
  let output := splice output (record + 32) [object.kind.byte]
  let offset ← okOr (tryU32 written.2) .limitExceeded
  let output := splice output (record + 40) (leBytes 4 offset)
  let length ← okOr (tryU32 object.bytes.length) .limitExceeded
  let output := splice output (record + 44) (leBytes 4 length)
  let output := splice output written.2 object.bytes
  .ok (output, written.2 + object.bytes.length)

def retain (identitiesGranted outputGranted : Bool) (pack : ContentPack)
    (roots : List ContentDigest) (maxObjects maxBytes : ℕ) : Except ContentError Bytes := do
  rejectIf (roots = [] ∨ maxObjects = 0 ∨ Cspk.maxObjects < maxObjects ∨
    maxBytes < headerBytes + recordBytes + 1 ∨ maxPackBytes < maxBytes) .limitExceeded
  rejectIf (identitiesGranted = false) .metadataExhausted
  let identities ← roots.foldlM (pack.identityStep maxObjects) []
  let identities := identities.insertionSort NotAbove
  let table ← okOr (checkedMul 64 identities.length recordBytes) .limitExceeded
  let tableEnd ← okOr (checkedAdd 64 headerBytes table) .limitExceeded
  let total ← identities.foldlM pack.totalStep tableEnd
  rejectIf (maxBytes < total) .limitExceeded
  rejectIf (outputGranted = false) .metadataExhausted
  let output := List.replicate total 0
  let output := splice output 0 contentPackMagic
  let output := splice output 8 (leBytes 2 1)
  let output := splice output 12 (leBytes 2 64)
  let output := splice output 14 (leBytes 2 64)
  let size ← okOr (tryU32 total) .limitExceeded
  let output := splice output 16 (leBytes 4 size)
  rejectIf (2 ^ 16 ≤ identities.length) .limitExceeded
  let output := splice output 24 (leBytes 2 identities.length)
  let (output, _) ← identities.zipIdx.foldlM pack.writeStep (output, tableEnd)
  let checksum := crc32WithZeroedField output checksumOffset
  .ok (splice output checksumOffset (leBytes 4 checksum.toNat))

end ContentPack

end Troe.Cspk
