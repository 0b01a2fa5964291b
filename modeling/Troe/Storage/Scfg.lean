import Troe.Lib.Utf8
import Troe.Storage.Checksum
import Troe.Storage.FsApi

/-!
# System configuration images (`troe-fmt-scfg`)

The parser of the versioned system configuration: a header with the recovery and memory policies, one
fixed-size record for each service, and a string table. Strings are kept as their UTF-8 bytes.
Whether the heap grants a reservation is the environment's choice and a parameter.
-/

namespace Troe.Scfg

open Lib Checksum

/-! ## Limits -/

/-- The bytes of `SCFGv1` and two zeros. -/
def configV1Magic : Bytes := [83, 67, 70, 71, 118, 49, 0, 0]

def headerBytes : ℕ := 144
def recordBytes : ℕ := 64
def maxConfigBytes : ℕ := 16 * 1024
def maxServices : ℕ := 32
def knownServiceCapabilities : UInt32 := 0x1 ||| 0x2 ||| 0x4 ||| 0x8
def maxDependencies : ℕ := 4
def maxServiceNameBytes : ℕ := 32
def maxBootAttempts : UInt8 := 8
def maxHealthWindowMs : UInt32 := 10 * 60 * 1000
def maxExecutionLeaseMs : UInt16 := 50

/-- The handle descriptors that fit the startup page: `(4096 - 64) / 24`. -/
def maxInitialHandles : UInt8 := 168

def flagFallbackPrevious : UInt8 := 0x1
def flagRecoveryShell : UInt8 := 0x2
def knownFlags : UInt8 := flagFallbackPrevious ||| flagRecoveryShell

def memoryPolicySystemLimited : UInt64 := 0x1
def memoryPolicyCommittedLimited : UInt64 := 0x2
def memoryPolicyReservedLimited : UInt64 := 0x4
def knownMemoryPolicyFlags : UInt64 :=
  memoryPolicySystemLimited ||| memoryPolicyCommittedLimited ||| memoryPolicyReservedLimited

def maxPrivateMappings : UInt64 := 1048576
def maxPrivateMetadataBytes : UInt64 := 64 * 1024 * 1024
def maxGlobalPrivateMetadataBytes : UInt64 := 256 * 1024 * 1024
def maxPrivateOperationQuantumPages : UInt64 := 1048576

/-! ## Errors -/

inductive ConfigError where
  | invalidHeader
  | invalidRecoveryPolicy
  | invalidService
  | invalidDependency
  | invalidString
  | invalidMemoryPolicy
  | metadataExhausted
deriving DecidableEq

inductive MemoryPolicyError where
  | invalidSyntax
  | invalidValue
  | metadataExhausted

/-- The heap reservations of one parse, each made at most once. -/
inductive Reservation where
  | checksum
  | services
  | dependencies (service : ℕ)

/-! ## Memory policy -/

/-- An optional nonzero ceiling. -/
structure OptionalLimit where
  maximum : Option UInt64
  nonzero : maximum ≠ some 0
deriving DecidableEq

def OptionalLimit.unlimited : OptionalLimit := ⟨none, by decide⟩

def OptionalLimit.limited (maximum : UInt64) : Except MemoryPolicyError OptionalLimit :=
  if h : maximum = 0 then .error .invalidValue
  else .ok ⟨some maximum, fun hsome => h (Option.some.inj hsome)⟩

/-- What `MemoryPolicy::new` refuses: a zero, a value over its backstop, or contradictory limits. -/
def PolicyRefused (minimumFreePages : UInt64) (systemApplicationCommit : OptionalLimit)
    (defaultCommittedPages : OptionalLimit) (defaultMaximumMappings : UInt64)
    (defaultMaximumMetadataBytes globalMetadataBytes operationQuantumPages : UInt64) : Prop :=
  minimumFreePages = 0 ∨ defaultMaximumMappings = 0 ∨
    maxPrivateMappings < defaultMaximumMappings ∨ defaultMaximumMetadataBytes = 0 ∨
    maxPrivateMetadataBytes < defaultMaximumMetadataBytes ∨
    globalMetadataBytes < defaultMaximumMetadataBytes ∨
    maxGlobalPrivateMetadataBytes < globalMetadataBytes ∨ operationQuantumPages = 0 ∨
    maxPrivateOperationQuantumPages < operationQuantumPages ∨
    ∃ system ∈ systemApplicationCommit.maximum, ∃ process ∈ defaultCommittedPages.maximum,
      system < process

instance (a : UInt64) (b c : OptionalLimit) (d e f g : UInt64) :
    Decidable (PolicyRefused a b c d e f g) :=
  inferInstanceAs (Decidable (_ ∨ _))

/-- A validated private-memory policy. -/
structure MemoryPolicy where
  minimumFreePages : UInt64
  systemApplicationCommit : OptionalLimit
  defaultCommittedPages : OptionalLimit
  defaultReservedPages : OptionalLimit
  defaultMaximumMappings : UInt64
  defaultMaximumMetadataBytes : UInt64
  globalMetadataBytes : UInt64
  operationQuantumPages : UInt64
  accepted : ¬ PolicyRefused minimumFreePages systemApplicationCommit defaultCommittedPages
    defaultMaximumMappings defaultMaximumMetadataBytes globalMetadataBytes operationQuantumPages
deriving DecidableEq

def MemoryPolicy.new (minimumFreePages : UInt64)
    (systemApplicationCommit defaultCommittedPages defaultReservedPages : OptionalLimit)
    (defaultMaximumMappings defaultMaximumMetadataBytes globalMetadataBytes
      operationQuantumPages : UInt64) : Except MemoryPolicyError MemoryPolicy :=
  if h : PolicyRefused minimumFreePages systemApplicationCommit defaultCommittedPages
      defaultMaximumMappings defaultMaximumMetadataBytes globalMetadataBytes
      operationQuantumPages then .error .invalidValue
  else .ok ⟨minimumFreePages, systemApplicationCommit, defaultCommittedPages,
    defaultReservedPages, defaultMaximumMappings, defaultMaximumMetadataBytes,
    globalMetadataBytes, operationQuantumPages, h⟩

/-! ## Configurations -/

inductive StartupMode where
  | bootRequired
  | bootOptional
  | onDemand
  | recoveryOnly
deriving DecidableEq

def StartupMode.ofByte : UInt8 → Option StartupMode
  | 1 => some .bootRequired
  | 2 => some .bootOptional
  | 3 => some .onDemand
  | 4 => some .recoveryOnly
  | _ => none

inductive FailureAction where
  | continue
  | restart
  | previousGeneration
  | recoveryShell
deriving DecidableEq

def FailureAction.ofByte : UInt8 → Option FailureAction
  | 1 => some .continue
  | 2 => some .restart
  | 3 => some .previousGeneration
  | 4 => some .recoveryShell
  | _ => none

structure RecoveryPolicy where
  maxBootAttempts : UInt8
  healthWindowMs : UInt32
  fallbackPrevious : Bool
  recoveryShell : Bool
deriving DecidableEq

structure ServiceConfig where
  id : UInt32
  mode : StartupMode
  failureAction : FailureAction
  restartLimit : UInt8
  initialHandles : UInt8
  executionLeaseMs : UInt16
  healthTimeoutMs : UInt32
  lifetimeLimitMs : UInt32
  capabilityBits : UInt32
  dependencies : List UInt32
  name : Bytes
  artifactPath : Bytes
deriving DecidableEq

structure SystemConfig where
  generation : UInt64
  previousGeneration : Option UInt64
  recovery : RecoveryPolicy
  memory : MemoryPolicy
  services : List ServiceConfig
deriving DecidableEq

/-! ## Reads -/

variable (grants : Reservation → Bool) (record bytes : Bytes)

def readU16 (offset : ℕ) : Except ConfigError UInt16 :=
  okOr ((readLe 2 bytes offset).map UInt16.ofNat) .invalidHeader

def readU32 (offset : ℕ) : Except ConfigError UInt32 :=
  okOr ((readLe 4 bytes offset).map UInt32.ofNat) .invalidHeader

def readU64 (offset : ℕ) : Except ConfigError UInt64 :=
  okOr ((readLe 8 bytes offset).map UInt64.ofNat) .invalidHeader

/-- `bytes[i]`, after a check of the length. -/
def byteAt (i : ℕ) : UInt8 := bytes.getD i 0

/-- `bytes[start..stop].iter().any(|byte| *byte != 0)` -/
def anyNonzero (start stop : ℕ) : Bool :=
  ((bytes.drop start).take (stop - start)).any fun byte => byte ≠ 0

/-! ## Services -/

/-- The string at the expected offset, and the offset where the next one is expected. -/
def parseString (strings : Bytes) (offset : UInt32) (length : UInt16) (expectedOffset limit : ℕ) :
    Except ConfigError (Bytes × ℕ) := do
  let offset := offset.toNat
  let length := length.toNat
  rejectIf (offset ≠ expectedOffset ∨ length = 0 ∨ limit < length) .invalidString
  let stop ← okOr (checkedAdd 64 offset length) .invalidString
  let value ← okOr (slice strings offset (stop - offset)) .invalidString
  let _scalars ← okOr (decodeUtf8 value) .invalidString
  rejectIf (0 ∈ value) .invalidString
  .ok (value, stop)

/-- One turn of the loop over the four dependency fields. -/
def dependencyStep (dependencyCount : ℕ) (previous : List ServiceConfig)
    (dependencies : List UInt32) (index : ℕ) : Except ConfigError (List UInt32) := do
  let dependency ← readU32 record (24 + index * 4)
  if index < dependencyCount then
    rejectIf (dependency = 0 ∨ dependencies.getLast?.any (fun value => value ≥ dependency) = true ∨
      previous.any (fun service => service.id = dependency) = false) .invalidDependency
    .ok (dependencies ++ [dependency])
  else
    rejectIf (dependency ≠ 0) .invalidDependency
    .ok dependencies

def parseDependencies (dependencyCount : ℕ) (previous : List ServiceConfig) :
    Except ConfigError (List UInt32) := do
  rejectIf (grants (.dependencies previous.length) = false) .metadataExhausted
  (List.range maxDependencies).foldlM (dependencyStep record dependencyCount previous) []

/-- The letters of a service name. -/
def isNameByte (byte : UInt8) : Bool :=
  isBetween 0x61 0x7a byte || isBetween 0x30 0x39 byte || byte = 0x2d || byte = 0x5f

/-- The characters of UTF-8 bytes. -/
def chars : List Char := ((decodeUtf8 bytes).getD []).map Char.ofNat

/-- What is wrong with the policy fields of a record. -/
def ServiceRefused (mode : StartupMode) (failureAction : FailureAction)
    (restartLimit initialHandles : UInt8) (executionLeaseMs : UInt16) (dependencyCount : ℕ)
    (healthTimeoutMs lifetimeLimitMs capabilityBits : UInt32) : Prop :=
  executionLeaseMs = 0 ∨ maxExecutionLeaseMs < executionLeaseMs ∨
    maxInitialHandles < initialHandles ∨ maxDependencies < dependencyCount ∨
    ¬ (failureAction = .restart ↔ restartLimit ≠ 0) ∨
    (mode = .bootRequired ∧ failureAction = .continue) ∨
    (mode = .recoveryOnly ∧ ¬ (failureAction = .continue ∨ failureAction = .restart)) ∨
    ((mode = .bootRequired ∨ mode = .bootOptional) ∧ healthTimeoutMs = 0) ∨
    (lifetimeLimitMs ≠ 0 ∧ lifetimeLimitMs < healthTimeoutMs) ∨
    capabilityBits &&& ~~~ knownServiceCapabilities ≠ 0

instance (a : StartupMode) (b : FailureAction) (c d : UInt8) (e : UInt16) (f : ℕ)
    (g h i : UInt32) : Decidable (ServiceRefused a b c d e f g h i) :=
  inferInstanceAs (Decidable (_ ∨ _))

/-- The string part of `parse_service`: name, artifact path, and the offset where the next string is
expected. -/
def serviceStrings (strings : Bytes) (expectedStringOffset : ℕ) :
    Except ConfigError (Bytes × Bytes × ℕ) := do
  let nameOffset ← readU32 record 40
  let nameLength ← readU16 record 44
  let (name, offset) ← parseString strings nameOffset nameLength expectedStringOffset
    maxServiceNameBytes
  rejectIf (name.all isNameByte = false) .invalidString
  let pathOffset ← readU32 record 48
  let pathLength ← readU16 record 52
  let (artifactPath, offset) ← parseString strings pathOffset pathLength offset Fs.maxPathBytes
  let canonical ← (Fs.canonicalize ['/'] (chars artifactPath)).mapError fun _ => .invalidString
  rejectIf (canonical ≠ chars artifactPath ∨ (chars artifactPath).head? ≠ some '/') .invalidString
  .ok (name, artifactPath, offset)

/-- One service record, and the offset where the next string is expected. -/
def parseService (strings : Bytes) (previous : List ServiceConfig) (expectedStringOffset : ℕ) :
    Except ConfigError (ServiceConfig × ℕ) := do
  rejectIf (record.length ≠ recordBytes) .invalidService
  let namePad ← readU16 record 46
  let pathPad ← readU16 record 54
  rejectIf (byteAt record 11 ≠ 0 ∨ namePad ≠ 0 ∨ pathPad ≠ 0 ∨
    anyNonzero record 56 recordBytes = true) .invalidService
  let id ← readU32 record 0
  rejectIf (id = 0 ∨ previous.getLast?.any (fun service => service.id ≥ id) = true)
    .invalidDependency
  let mode ← okOr (StartupMode.ofByte (byteAt record 4)) .invalidService
  let failureAction ← okOr (FailureAction.ofByte (byteAt record 5)) .invalidService
  let restartLimit := byteAt record 6
  let initialHandles := byteAt record 7
  let executionLeaseMs ← readU16 record 8
  let dependencyCount := (byteAt record 10).toNat
  let healthTimeoutMs ← readU32 record 12
  let lifetimeLimitMs ← readU32 record 16
  let capabilityBits ← readU32 record 20
  rejectIf (ServiceRefused mode failureAction restartLimit initialHandles executionLeaseMs
    dependencyCount healthTimeoutMs lifetimeLimitMs capabilityBits) .invalidService
  let dependencies ← parseDependencies grants record dependencyCount previous
  let (name, artifactPath, offset) ← serviceStrings record strings expectedStringOffset
  .ok (⟨id, mode, failureAction, restartLimit, initialHandles, executionLeaseMs, healthTimeoutMs,
    lifetimeLimitMs, capabilityBits, dependencies, name, artifactPath⟩, offset)

/-! ## The image -/

/-- One of the three optional ceilings of the memory policy. -/
def optionalLimit (memoryFlags flag : UInt64) (offset : ℕ) : Except ConfigError OptionalLimit := do
  let maximum ← readU64 bytes offset
  if memoryFlags &&& flag ≠ 0 then
    (OptionalLimit.limited maximum).mapError fun _ => .invalidMemoryPolicy
  else do
    rejectIf (maximum ≠ 0) .invalidMemoryPolicy
    .ok .unlimited

/-- What is wrong with the global recovery fields. -/
def RecoveryRefused (generation previousRaw : UInt64) (serviceCount : ℕ)
    (maxBootAttempts flags : UInt8) (healthWindowMs : UInt32) (stringEnd : Option ℕ)
    (length : ℕ) : Prop :=
  generation = 0 ∨ (previousRaw ≠ 0 ∧ previousRaw ≥ generation) ∨ maxServices < serviceCount ∨
    stringEnd ≠ some length ∨ flags &&& ~~~ knownFlags ≠ 0 ∨ flags &&& flagRecoveryShell = 0 ∨
    maxBootAttempts = 0 ∨ Scfg.maxBootAttempts < maxBootAttempts ∨ healthWindowMs = 0 ∨
    maxHealthWindowMs < healthWindowMs ∨
    ¬ (flags &&& flagFallbackPrevious ≠ 0 ↔ previousRaw ≠ 0)

instance (a b : UInt64) (c : ℕ) (d e : UInt8) (f : UInt32) (g : Option ℕ) (h : ℕ) :
    Decidable (RecoveryRefused a b c d e f g h) :=
  inferInstanceAs (Decidable (_ ∨ _))

/-- The memory policy of the header. -/
def parseMemory : Except ConfigError MemoryPolicy := do
  let memoryFlags ← readU64 bytes 64
  rejectIf (memoryFlags &&& ~~~ knownMemoryPolicyFlags ≠ 0) .invalidMemoryPolicy
  let minimumFreePages ← readU64 bytes 72
  let systemCommit ← optionalLimit bytes memoryFlags memoryPolicySystemLimited 80
  let committed ← optionalLimit bytes memoryFlags memoryPolicyCommittedLimited 88
  let reserved ← optionalLimit bytes memoryFlags memoryPolicyReservedLimited 96
  let mappings ← readU64 bytes 104
  let metadata ← readU64 bytes 112
  let globalMetadata ← readU64 bytes 120
  let quantum ← readU64 bytes 128
  (MemoryPolicy.new minimumFreePages systemCommit committed reserved mappings metadata
    globalMetadata quantum).mapError fun _ => .invalidMemoryPolicy

/-- One turn of the loop over the service records. -/
def serviceStep (stringTable : Bytes) (parsed : List ServiceConfig × ℕ) (index : ℕ) :
    Except ConfigError (List ServiceConfig × ℕ) := do
  let record ← okOr (slice bytes (headerBytes + index * recordBytes) recordBytes) .invalidHeader
  let (service, offset) ← parseService grants record stringTable parsed.1 parsed.2
  .ok (parsed.1 ++ [service], offset)

/-- The part of `parse_config` in front of the policies: sizes, versions, padding and checksum. -/
def checkHeader : Except ConfigError Unit := do
  rejectIf (bytes.length < headerBytes ∨ maxConfigBytes < bytes.length ∨
    bytes.take 8 ≠ configV1Magic) .invalidHeader
  let major ← readU16 bytes 8
  let minor ← readU16 bytes 10
  let header ← readU16 bytes 12
  let record ← readU16 bytes 14
  let total ← readU32 bytes 16
  rejectIf (major ≠ 1 ∨ minor ≠ 1 ∨ header.toNat ≠ headerBytes ∨ record ≠ 64 ∨
    total.toNat ≠ bytes.length ∨ anyNonzero bytes 52 64 = true ∨
    anyNonzero bytes 136 headerBytes = true) .invalidHeader
  let expectedCrc ← readU32 bytes 20
  rejectIf (grants .checksum = false) .metadataExhausted
  rejectIf ((crc32 (splice bytes 20 (List.replicate 4 0))).toNat ≠ expectedCrc.toNat)
    .invalidHeader

def parseConfig : Except ConfigError SystemConfig := do
  checkHeader grants bytes
  let generation ← readU64 bytes 24
  let previousRaw ← readU64 bytes 32
  let serviceCount := (← readU16 bytes 40).toNat
  let maxBootAttempts := byteAt bytes 42
  let flags := byteAt bytes 43
  let healthWindowMs ← readU32 bytes 44
  let stringBytes := (← readU32 bytes 48).toNat
  let records ← okOr (checkedMul 64 serviceCount recordBytes) .invalidHeader
  let stringStart ← okOr (checkedAdd 64 headerBytes records) .invalidHeader
  rejectIf (RecoveryRefused generation previousRaw serviceCount maxBootAttempts flags
    healthWindowMs (checkedAdd 64 stringStart stringBytes) bytes.length) .invalidRecoveryPolicy
  let memory ← parseMemory bytes
  let stringTable := bytes.drop stringStart
  rejectIf (grants .services = false) .metadataExhausted
  let (services, expectedStringOffset) ←
    (List.range serviceCount).foldlM (serviceStep grants bytes stringTable) ([], 0)
  rejectIf (expectedStringOffset ≠ stringTable.length) .invalidString
  .ok ⟨generation, if previousRaw ≠ 0 then some previousRaw else none,
    ⟨maxBootAttempts, healthWindowMs, flags &&& flagFallbackPrevious ≠ 0, true⟩, memory, services⟩

end Troe.Scfg
