import Mathlib.Data.List.Chain
import Troe.Storage.Scfg
import Mathlib.Data.List.GetD
import Mathlib.Tactic.IntervalCases

/-!
# The configuration format is canonical

Every configuration has one image (`SystemConfig.encode`), and an accepted image is the image of the
configuration it parses to. Every byte is read by some field, so a chain of reads from offset zero on
spells the image out.
-/

namespace Troe.Scfg

open Lib Checksum
open List (append_assoc append_nil flatten_cons flatten_nil length_append map_cons map_nil mem_singleton replicate)
open Classical (not_not)

variable {offset offset' dependencyCount : ℕ} {previous services : List ServiceConfig}
  {dependencies : List UInt32} {grants : Reservation → Bool} {service : ServiceConfig}
  {bytes : Bytes} {memoryFlags : UInt64} {config : SystemConfig}

/-! ## Reads determine bytes -/

section Reads

variable {bytes : Bytes} {offset : ℕ}

/-- A number that was read stands at its offset. -/
theorem drop_of_read {α : Type} {n : ℕ} {ofNat : ℕ → α} {toNat : α → ℕ} {e : ConfigError} {v : α}
    (h : okOr ((readLe n bytes offset).map ofNat) e = .ok v)
    (htoNat : ∀ raw, toNat (ofNat raw) = raw % 256 ^ n) :
    bytes.drop offset = leBytes n (toNat v) ++ bytes.drop (offset + n) := by
  obtain ⟨raw, hraw, rfl⟩ := Option.map_eq_some_iff.mp (okOr_eq_ok.mp h)
  rw [htoNat, Nat.mod_eq_of_lt (readLe_lt hraw)]
  exact drop_of_readLe hraw

/-- Two bytes. -/
theorem drop_of_readU16 {v : UInt16} (h : readU16 bytes offset = .ok v) :
    bytes.drop offset = leBytes 2 v.toNat ++ bytes.drop (offset + 2) :=
  drop_of_read h fun _ => UInt16.toNat_ofNat'

/-- Four bytes. -/
theorem drop_of_readU32 {v : UInt32} (h : readU32 bytes offset = .ok v) :
    bytes.drop offset = leBytes 4 v.toNat ++ bytes.drop (offset + 4) :=
  drop_of_read h fun _ => UInt32.toNat_ofNat'

/-- Eight bytes. -/
theorem drop_of_readU64 {v : UInt64} (h : readU64 bytes offset = .ok v) :
    bytes.drop offset = leBytes 8 v.toNat ++ bytes.drop (offset + 8) :=
  drop_of_read h fun _ => UInt64.toNat_ofNat'

/-- A single byte stands at its offset. -/
theorem drop_of_byteAt (h : offset < bytes.length) :
    bytes.drop offset = [byteAt bytes offset] ++ bytes.drop (offset + 1) := by
  rw [List.drop_eq_getElem_cons h, byteAt, List.getD_eq_getElem _ _ h]
  rfl

/-- Reserved bytes that passed the check are zero. -/
theorem drop_of_anyNonzero {stop n : ℕ} (h : anyNonzero bytes offset stop = false)
    (hstop : stop ≤ bytes.length) (hn : offset + n = stop) :
    bytes.drop offset = replicate n 0 ++ bytes.drop stop := by
  subst hn
  have hzeros : (bytes.drop offset).take n = replicate n 0 := by
    rw [List.eq_replicate_iff]
    refine ⟨by rw [List.length_take, List.length_drop]; omega, fun byte hbyte => ?_⟩
    rw [anyNonzero, Nat.add_sub_cancel_left] at h
    simpa using List.any_eq_false.mp h byte hbyte
  rw [← hzeros, ← List.drop_drop, List.take_append_drop]

end Reads

/-! ## Strings and dependencies -/

/-- A string stands where the one in front of it ends. -/
theorem parseString_ok {strings value : Bytes} {offset : UInt32} {length : UInt16}
    {expectedOffset limit stop : ℕ}
    (h : parseString strings offset length expectedOffset limit = .ok (value, stop)) :
    offset.toNat = expectedOffset ∧ length.toNat = value.length ∧
      stop = expectedOffset + value.length ∧
      strings.drop expectedOffset = value ++ strings.drop stop := by
  simp only [parseString, ok_rules] at h
  obtain ⟨-, hguard, stop', ⟨-, hstop⟩, value', hslice, -, -, -, -, hresult⟩ := h
  cases hresult
  have hoffset : offset.toNat = expectedOffset := by
    by_contra hne
    exact hguard (.inl hne)
  have hlength := length_of_slice_eq_some hslice
  have hdrop := drop_of_slice hslice
  subst hstop hoffset
  rw [Nat.add_sub_cancel_left] at hlength hdrop
  exact ⟨rfl, hlength.symm, by rw [hlength], hdrop⟩

/-- The name and the path of a service follow one another in the string table. -/
theorem serviceStrings_ok {record strings name path : Bytes}
    (h : serviceStrings record strings offset = .ok (name, path, offset')) :
    record.drop 40 = leBytes 4 offset ++ record.drop 44 ∧
      record.drop 44 = leBytes 2 name.length ++ record.drop 46 ∧
      record.drop 48 = leBytes 4 (offset + name.length) ++ record.drop 52 ∧
      record.drop 52 = leBytes 2 path.length ++ record.drop 54 ∧
      offset' = offset + name.length + path.length ∧
      strings.drop offset = name ++ (path ++ strings.drop offset') := by
  simp only [serviceStrings, ok_rules, mapError_eq_ok] at h
  obtain ⟨nameOffset, hnameOffset, nameLength, hnameLength, ⟨name', offset1⟩, hname, -, -,
    pathOffset, hpathOffset, pathLength, hpathLength, ⟨path', offset2⟩, hpath, -, -, -, -,
    hresult⟩ := h
  cases hresult
  obtain ⟨rfl, hnameBytes, rfl, hnameTable⟩ := parseString_ok hname
  obtain ⟨hpathAt, hpathBytes, rfl, hpathTable⟩ := parseString_ok hpath
  dsimp only at hpathAt hpathTable ⊢
  refine ⟨drop_of_readU32 hnameOffset, ?_, ?_, ?_, rfl, by rw [hnameTable, hpathTable]⟩
  · rw [← hnameBytes]
    exact drop_of_readU16 hnameLength
  · rw [← hpathAt]
    exact drop_of_readU32 hpathOffset
  · rw [← hpathBytes]
    exact drop_of_readU16 hpathLength

/-- What the loop over the dependency fields has established after `count` turns. -/
structure DependenciesRead (record : Bytes) (dependencyCount : ℕ) (previous : List ServiceConfig)
    (turns : ℕ) (dependencies : List UInt32) : Prop where
  length : dependencies.length = min turns dependencyCount
  fields : ∀ index < turns,
    readU32 record (24 + index * 4) = .ok (dependencies.getD index 0)
  precede : ∀ dependency ∈ dependencies, ∃ service ∈ previous, service.id = dependency

/-- One turn of the loop reads one field, used or unused. -/
theorem DependenciesRead.step {record : Bytes} {index : ℕ} {dependencies' : List UInt32}
    (h : DependenciesRead record dependencyCount previous index dependencies)
    (hstep : dependencyStep record dependencyCount previous dependencies index =
      .ok dependencies') :
    DependenciesRead record dependencyCount previous (index + 1) dependencies' := by
  have hlength := h.length
  simp only [dependencyStep, ok_rules] at hstep
  obtain ⟨dependency, hread, hstep⟩ := hstep
  split at hstep
  next hindex =>
    simp only [ok_rules] at hstep
    obtain ⟨-, hguard, hresult⟩ := hstep
    cases hresult
    refine ⟨by rw [length_append, List.length_singleton]; omega, ?_, ?_⟩
    · intro i hi
      by_cases hlast : i = index
      · rw [hlast, List.getD_append_right _ _ _ _ (by omega), hread]
        simp [show index - dependencies.length = 0 by omega]
      · rw [List.getD_append _ _ _ _ (by omega)]
        exact h.fields i (by omega)
    · intro d hd
      rcases List.mem_append.mp hd with hd | hd
      · exact h.precede d hd
      · rw [mem_singleton.mp hd]
        have hany : previous.any (fun service => service.id = dependency) = true := by
          by_contra hne
          exact hguard (.inr (.inr (Bool.eq_false_iff.mpr hne)))
        obtain ⟨service, hservice, hid⟩ := List.any_eq_true.mp hany
        exact ⟨service, hservice, by simpa using hid⟩
  next hindex =>
    simp only [ok_rules] at hstep
    obtain ⟨-, hzero, hresult⟩ := hstep
    cases hresult
    refine ⟨by omega, ?_, h.precede⟩
    intro i hi
    by_cases hlast : i = index
    · rw [hlast, List.getD_eq_default _ _ (by omega), hread]
      rw [not_not.mp hzero]
    · exact h.fields i (by omega)

/-- All four dependency fields are read. -/
theorem parseDependencies_ok {record : Bytes}
    (h : parseDependencies grants record dependencyCount previous = .ok dependencies) :
    DependenciesRead record dependencyCount previous maxDependencies dependencies := by
  simp only [parseDependencies, ok_rules] at h
  obtain ⟨-, -, hloop⟩ := h
  refine foldlM_range_ok_induction (P := DependenciesRead record dependencyCount previous) hloop
    ⟨by simp, by simp, by simp⟩ ?_
  exact fun index s s' _ hs hstep => hs.step hstep

/-! ## Service records -/

/-- The byte of a startup mode. -/
def StartupMode.byte : StartupMode → UInt8
  | .bootRequired => 1
  | .bootOptional => 2
  | .onDemand => 3
  | .recoveryOnly => 4

/-- The byte of a failure action. -/
def FailureAction.byte : FailureAction → UInt8
  | .continue => 1
  | .restart => 2
  | .previousGeneration => 3
  | .recoveryShell => 4

/-- The byte of a mode is known from the mode. -/
theorem StartupMode.byte_of_ofByte {byte : UInt8} {mode : StartupMode}
    (h : ofByte byte = some mode) : byte = mode.byte := by
  unfold ofByte at h
  split at h <;> cases h <;> rfl

/-- The byte of an action is known from the action. -/
theorem FailureAction.byte_of_ofByte {byte : UInt8} {action : FailureAction}
    (h : ofByte byte = some action) : byte = action.byte := by
  unfold ofByte at h
  split at h <;> cases h <;> rfl

namespace ServiceConfig

variable (service : ServiceConfig)

/-- The strings of a service, in the order of the string table. -/
def strings : Bytes := service.name ++ service.artifactPath

/-- The field of the dependency with this index, zero when there are fewer. -/
def dependencyField (index : ℕ) : Bytes := leBytes 4 (service.dependencies.getD index 0).toNat

/-- The record of a service whose strings start at `offset` of the string table. -/
def encode (offset : ℕ) : Bytes :=
  [leBytes 4 service.id.toNat, [service.mode.byte], [service.failureAction.byte],
    [service.restartLimit], [service.initialHandles], leBytes 2 service.executionLeaseMs.toNat,
    [UInt8.ofNat service.dependencies.length], [0], leBytes 4 service.healthTimeoutMs.toNat,
    leBytes 4 service.lifetimeLimitMs.toNat, leBytes 4 service.capabilityBits.toNat,
    service.dependencyField 0, service.dependencyField 1, service.dependencyField 2,
    service.dependencyField 3, leBytes 4 offset, leBytes 2 service.name.length, leBytes 2 0,
    leBytes 4 (offset + service.name.length), leBytes 2 service.artifactPath.length, leBytes 2 0,
    replicate 8 0].flatten

@[simp] theorem length_encode (offset : ℕ) : (service.encode offset).length = recordBytes := by
  simp [encode, dependencyField, recordBytes]

end ServiceConfig

/-- What an accepted record says about the services before it and about the string table. -/
structure Placed (record strings : Bytes) (previous : List ServiceConfig) (offset : ℕ)
    (service : ServiceConfig) (offset' : ℕ) : Prop where
  record : record = service.encode offset
  ascending : ∀ last ∈ previous.getLast?, last.id < service.id
  precede : ∀ dependency ∈ service.dependencies, ∃ s ∈ previous, s.id = dependency
  next : offset' = offset + service.strings.length
  strings : strings.drop offset = service.strings ++ strings.drop offset'

/-- An accepted record is the record of the service it parses to. -/
theorem parseService_ok {record strings : Bytes}
    (h : parseService grants record strings previous offset = .ok (service, offset')) :
    Placed record strings previous offset service offset' := by
  simp only [parseService, ok_rules] at h
  obtain ⟨-, hlength, namePad, hnamePad, pathPad, hpathPad, -, hpads, id, hid, -, hascending, mode,
    hmode, action, haction, lease, hlease, health, hhealth, lifetime, hlifetime, capability,
    hcapability, -, hservice, dependencies, hdependencies, ⟨name, path, offset2⟩, hstrings,
    hresult⟩ := h
  cases hresult
  have hlength : record.length = 64 := not_not.mp hlength
  obtain ⟨hpad11, hpad46, hpad54, hpad56⟩ : byteAt record 11 = 0 ∧ namePad = 0 ∧ pathPad = 0 ∧
      anyNonzero record 56 recordBytes = false := by
    simpa only [not_or, not_not, Bool.not_eq_true] using hpads
  have hread := parseDependencies_ok hdependencies
  have hcount : UInt8.ofNat dependencies.length = byteAt record 10 := by
    have hmax : (byteAt record 10).toNat ≤ maxDependencies :=
      Nat.le_of_not_lt fun hlt => hservice (.inr (.inr (.inr (.inl hlt))))
    rw [hread.length, Nat.min_eq_right hmax, UInt8.ofNat_toNat]
  obtain ⟨hnameOffset, hnameLength, hpathOffset, hpathLength, hnext, htable⟩ :=
    serviceStrings_ok hstrings
  refine ⟨?_, ?_, hread.precede, ?_, ?_⟩
  · -- One fact for each field, in the order of the record.
    have h0 : record.drop 0 = leBytes 4 id.toNat ++ record.drop 4 := drop_of_readU32 hid
    have h4 : record.drop 4 = [mode.byte] ++ record.drop 5 := by
      rw [← StartupMode.byte_of_ofByte hmode]
      exact drop_of_byteAt (by omega)
    have h5 : record.drop 5 = [action.byte] ++ record.drop 6 := by
      rw [← FailureAction.byte_of_ofByte haction]
      exact drop_of_byteAt (by omega)
    have h6 : record.drop 6 = [byteAt record 6] ++ record.drop 7 := drop_of_byteAt (by omega)
    have h7 : record.drop 7 = [byteAt record 7] ++ record.drop 8 := drop_of_byteAt (by omega)
    have h8 : record.drop 8 = leBytes 2 lease.toNat ++ record.drop 10 := drop_of_readU16 hlease
    have h10 : record.drop 10 = [UInt8.ofNat dependencies.length] ++ record.drop 11 := by
      rw [hcount]
      exact drop_of_byteAt (by omega)
    have h11 : record.drop 11 = [0] ++ record.drop 12 := by
      rw [← hpad11]
      exact drop_of_byteAt (by omega)
    have h12 : record.drop 12 = leBytes 4 health.toNat ++ record.drop 16 := drop_of_readU32 hhealth
    have h16 : record.drop 16 = leBytes 4 lifetime.toNat ++ record.drop 20 :=
      drop_of_readU32 hlifetime
    have h20 : record.drop 20 = leBytes 4 capability.toNat ++ record.drop 24 :=
      drop_of_readU32 hcapability
    have h24 : record.drop 24 = leBytes 4 (dependencies.getD 0 0).toNat ++ record.drop 28 :=
      drop_of_readU32 (hread.fields 0 (by decide))
    have h28 : record.drop 28 = leBytes 4 (dependencies.getD 1 0).toNat ++ record.drop 32 :=
      drop_of_readU32 (hread.fields 1 (by decide))
    have h32 : record.drop 32 = leBytes 4 (dependencies.getD 2 0).toNat ++ record.drop 36 :=
      drop_of_readU32 (hread.fields 2 (by decide))
    have h36 : record.drop 36 = leBytes 4 (dependencies.getD 3 0).toNat ++ record.drop 40 :=
      drop_of_readU32 (hread.fields 3 (by decide))
    have h46 : record.drop 46 = leBytes 2 0 ++ record.drop 48 := by
      rw [hpad46] at hnamePad
      exact drop_of_readU16 hnamePad
    have h54 : record.drop 54 = leBytes 2 0 ++ record.drop 56 := by
      rw [hpad54] at hpathPad
      exact drop_of_readU16 hpathPad
    have h56 : record.drop 56 = replicate 8 0 ++ [] := by
      rw [drop_of_anyNonzero (n := 8) hpad56 (by omega) rfl, List.drop_eq_nil_of_le (by omega)]
    calc record = record.drop 0 := rfl
      _ = _ := by
        rw [h0, h4, h5, h6, h7, h8, h10, h11, h12, h16, h20, h24, h28, h32, h36, hnameOffset,
          hnameLength, h46, hpathOffset, hpathLength, h54, h56]
        rfl
  · intro last hlast
    rw [Option.mem_def.mp hlast, Option.any_some, decide_eq_true_eq, not_or] at hascending
    exact UInt32.not_le.mp hascending.2
  · rw [hnext, ServiceConfig.strings, length_append, Nat.add_assoc]
  · rw [htable, ServiceConfig.strings, append_assoc]

/-! ## The image of a configuration -/

/-- The strings of all services, one after the other. -/
def stringTable (services : List ServiceConfig) : Bytes :=
  (services.map ServiceConfig.strings).flatten

/-- The records of the services when the string table is at `offset`. -/
def encodeRecords : ℕ → List ServiceConfig → Bytes
  | _, [] => []
  | offset, service :: services =>
    service.encode offset ++ encodeRecords (offset + service.strings.length) services

/-- The strings of further services stand behind those of the first ones. -/
theorem encodeRecords_append (offset : ℕ) (a b : List ServiceConfig) :
    encodeRecords offset (a ++ b) =
      encodeRecords offset a ++ encodeRecords (offset + (stringTable a).length) b := by
  induction a generalizing offset with
  | nil => rfl
  | cons service a ih =>
    rw [List.cons_append, encodeRecords, ih, encodeRecords, append_assoc]
    simp only [stringTable, map_cons, flatten_cons, length_append, Nat.add_assoc]

/-- All records have one size. -/
theorem length_encodeRecords (offset : ℕ) (services : List ServiceConfig) :
    (encodeRecords offset services).length = services.length * recordBytes := by
  induction services generalizing offset with
  | nil => rw [encodeRecords, List.length_nil, List.length_nil, Nat.zero_mul]
  | cons service services ih =>
    rw [encodeRecords, length_append, ih, ServiceConfig.length_encode, List.length_cons,
      Nat.succ_mul, Nat.add_comm]

namespace SystemConfig

variable (config : SystemConfig)

def flags : UInt8 :=
  flagRecoveryShell ||| if config.recovery.fallbackPrevious then flagFallbackPrevious else 0

end SystemConfig

/-- The flag of a ceiling. -/
def OptionalLimit.flag (limit : OptionalLimit) (mask : UInt64) : UInt64 :=
  if limit.maximum.isSome then mask else 0

/-- The value stored for a ceiling. -/
def OptionalLimit.stored (limit : OptionalLimit) : ℕ := (limit.maximum.getD 0).toNat

namespace MemoryPolicy

variable (memory : MemoryPolicy)

def flags : UInt64 :=
  memory.systemApplicationCommit.flag memoryPolicySystemLimited |||
    memory.defaultCommittedPages.flag memoryPolicyCommittedLimited |||
    memory.defaultReservedPages.flag memoryPolicyReservedLimited

/-- The policy fields of the header. -/
def encode : Bytes :=
  [leBytes 8 memory.flags.toNat, leBytes 8 memory.minimumFreePages.toNat,
    leBytes 8 memory.systemApplicationCommit.stored, leBytes 8 memory.defaultCommittedPages.stored,
    leBytes 8 memory.defaultReservedPages.stored, leBytes 8 memory.defaultMaximumMappings.toNat,
    leBytes 8 memory.defaultMaximumMetadataBytes.toNat, leBytes 8 memory.globalMetadataBytes.toNat,
    leBytes 8 memory.operationQuantumPages.toNat].flatten

end MemoryPolicy

namespace SystemConfig

variable (config : SystemConfig)

/-- The image of a configuration with the given checksum field. -/
def image (checksum : Bytes) : Bytes :=
  [configV1Magic, leBytes 2 1, leBytes 2 1, leBytes 2 headerBytes, leBytes 2 recordBytes,
    leBytes 4 (headerBytes + config.services.length * recordBytes +
      (stringTable config.services).length),
    checksum, leBytes 8 config.generation.toNat, leBytes 8 (config.previousGeneration.getD 0).toNat,
    leBytes 2 config.services.length, [config.recovery.maxBootAttempts], [config.flags],
    leBytes 4 config.recovery.healthWindowMs.toNat,
    leBytes 4 (stringTable config.services).length, replicate 12 0, config.memory.encode,
    replicate 8 0, encodeRecords 0 config.services, stringTable config.services].flatten

/-- The image of a configuration: the checksum is that of the image with a zero field. -/
def encode : Bytes := config.image (leBytes 4 (crc32 (config.image (replicate 4 0))).toNat)

end SystemConfig

/-! ## The header -/

/-- A ceiling stores its value, and zero without its flag. -/
theorem optionalLimit_ok {mask : UInt64}
    {limit : OptionalLimit} (h : optionalLimit bytes memoryFlags mask offset = .ok limit) :
    bytes.drop offset = leBytes 8 limit.stored ++ bytes.drop (offset + 8) ∧
      limit.flag mask = if memoryFlags &&& mask ≠ 0 then mask else 0 := by
  simp only [optionalLimit, ok_rules] at h
  obtain ⟨maximum, hread, h⟩ := h
  split at h
  next hflag =>
    rw [OptionalLimit.limited] at h
    split at h
    · cases h
    · cases h
      exact ⟨drop_of_readU64 hread, by rw [if_pos hflag]; rfl⟩
  next hflag =>
    simp only [ok_rules] at h
    obtain ⟨-, hzero, hresult⟩ := h
    cases hresult
    rw [not_not.mp hzero] at hread
    exact ⟨drop_of_readU64 hread, by rw [if_neg hflag]; rfl⟩

/-- A word without unknown bits is its known bits. -/
theorem eq_and_of_and_not {flags known : UInt64} (h : flags &&& ~~~ known = 0) :
    flags = flags &&& known := by
  have hbits := congrArg UInt64.toBitVec h
  apply UInt64.eq_of_toBitVec_eq
  simp only [UInt64.toBitVec_and, UInt64.toBitVec_not] at hbits ⊢
  ext i hi
  have hbit := congrArg (fun b => b.getLsbD i) hbits
  simp at hbit
  grind

/-- Flags without unknown bits are made of the three known ones. -/
theorem memoryFlags_eq (h : memoryFlags &&& ~~~ knownMemoryPolicyFlags = 0) : memoryFlags =
      (if memoryFlags &&& memoryPolicySystemLimited ≠ 0 then memoryPolicySystemLimited else 0) |||
      (if memoryFlags &&& memoryPolicyCommittedLimited ≠ 0 then memoryPolicyCommittedLimited
        else 0) |||
      (if memoryFlags &&& memoryPolicyReservedLimited ≠ 0 then memoryPolicyReservedLimited
        else 0) := by
  have hmask : memoryFlags = memoryFlags &&& knownMemoryPolicyFlags := eq_and_of_and_not h
  have hlt : memoryFlags.toNat < 8 := by
    rw [hmask]
    exact Nat.lt_of_le_of_lt Nat.and_le_right (by decide)
  have hvalue : memoryFlags = UInt64.ofNat memoryFlags.toNat := UInt64.ofNat_toNat.symm
  generalize memoryFlags.toNat = n at hlt hvalue
  subst hvalue
  interval_cases n <;> decide

/-- The policy fields spell out the policy. -/
theorem parseMemory_ok {memory : MemoryPolicy} (h : parseMemory bytes = .ok memory) :
    bytes.drop 64 = memory.encode ++ bytes.drop 136 := by
  simp only [parseMemory, ok_rules, mapError_eq_ok] at h
  obtain ⟨memoryFlags, hflags, -, hknown, minimum, hminimum, system, hsystem, committed, hcommitted,
    reserved, hreserved, mappings, hmappings, metadata, hmetadata, globals, hglobals, quantum,
    hquantum, hpolicy⟩ := h
  obtain ⟨h80, hsystemFlag⟩ := optionalLimit_ok hsystem
  obtain ⟨h88, hcommittedFlag⟩ := optionalLimit_ok hcommitted
  obtain ⟨h96, hreservedFlag⟩ := optionalLimit_ok hreserved
  have hvalue := memoryFlags_eq (not_not.mp hknown)
  rw [← hsystemFlag, ← hcommittedFlag, ← hreservedFlag] at hvalue
  have h64 : bytes.drop 64 = leBytes 8 memoryFlags.toNat ++ bytes.drop 72 := drop_of_readU64 hflags
  have h72 : bytes.drop 72 = leBytes 8 minimum.toNat ++ bytes.drop 80 := drop_of_readU64 hminimum
  have h104 : bytes.drop 104 = leBytes 8 mappings.toNat ++ bytes.drop 112 :=
    drop_of_readU64 hmappings
  have h112 : bytes.drop 112 = leBytes 8 metadata.toNat ++ bytes.drop 120 :=
    drop_of_readU64 hmetadata
  have h120 : bytes.drop 120 = leBytes 8 globals.toNat ++ bytes.drop 128 := drop_of_readU64 hglobals
  have h128 : bytes.drop 128 = leBytes 8 quantum.toNat ++ bytes.drop 136 := drop_of_readU64 hquantum
  rw [MemoryPolicy.new] at hpolicy
  split at hpolicy
  · cases hpolicy
  · cases hpolicy
    rw [h64, h72, h80, h88, h96, h104, h112, h120, h128, MemoryPolicy.encode, MemoryPolicy.flags,
      ← hvalue]
    simp

/-! ## The services -/

/-- Every service depends only on services in front of it. -/
def Precede (services : List ServiceConfig) : Prop :=
  ∀ front service back, services = front ++ service :: back →
    ∀ dependency ∈ service.dependencies, ∃ s ∈ front, s.id = dependency

/-- What the loop over the records has established. -/
structure ServicesRead (bytes table : Bytes) (count : ℕ) (parsed : List ServiceConfig × ℕ) :
    Prop where
  length : parsed.1.length = count
  records : bytes.drop headerBytes =
    encodeRecords 0 parsed.1 ++ bytes.drop (headerBytes + count * recordBytes)
  offset : parsed.2 = (stringTable parsed.1).length
  table : table = stringTable parsed.1 ++ table.drop parsed.2
  ascending : parsed.1.Pairwise fun s t => s.id < t.id
  precede : Precede parsed.1

/-- A service that depends on earlier ones may follow them. -/
theorem Precede.append (h : Precede services)
    (hservice : ∀ dependency ∈ service.dependencies, ∃ s ∈ services, s.id = dependency) :
    Precede (services ++ [service]) := by
  intro front s back heq
  rcases concat_eq_append_cons.mp heq with ⟨-, rfl, rfl⟩ | ⟨back', -, rfl⟩
  · exact hservice
  · exact h front s back' rfl

/-- A service above the last one is above all. -/
theorem ascending_append (h : services.Pairwise fun s t => s.id < t.id)
    (hlast : ∀ last ∈ services.getLast?, last.id < service.id) :
    (services ++ [service]).Pairwise fun s t => s.id < t.id := by
  rw [← List.isChain_iff_pairwise] at h ⊢
  refine List.isChain_append.mpr ⟨h, List.isChain_singleton _, fun last hs t ht => ?_⟩
  rw [← Option.some.inj ht]
  exact hlast last hs

/-- One turn of the loop reads one record and its strings. -/
theorem ServicesRead.step {table : Bytes} {count : ℕ}
    {parsed parsed' : List ServiceConfig × ℕ} (h : ServicesRead bytes table count parsed)
    (hstep : serviceStep grants bytes table parsed count = .ok parsed') :
    ServicesRead bytes table (count + 1) parsed' := by
  simp only [serviceStep, ok_rules] at hstep
  obtain ⟨record, hrecord, ⟨service, offset⟩, hservice, hresult⟩ := hstep
  cases hresult
  have hplaced := parseService_ok hservice
  refine ⟨?_, ?_, ?_, ?_, ?_, h.precede.append hplaced.precede⟩
  · rw [length_append, List.length_singleton, h.length]
  · rw [h.records, drop_of_slice hrecord, hplaced.record, encodeRecords_append, ← h.offset,
      Nat.zero_add, Nat.add_assoc, ← Nat.succ_mul]
    simp [encodeRecords]
  · simp only [stringTable, List.map_append, map_cons, map_nil, List.flatten_append,
      flatten_cons, flatten_nil, append_nil, length_append]
    rw [hplaced.next, h.offset, stringTable]
  · simp only [stringTable, List.map_append, map_cons, map_nil, List.flatten_append,
      flatten_cons, flatten_nil, append_nil, append_assoc]
    rw [← hplaced.strings]
    exact h.table
  · exact ascending_append h.ascending hplaced.ascending

/-! ## Canonicity -/

/-- Known flags with the recovery shell are told by the fallback flag. -/
theorem flags_eq {flags : UInt8} (hknown : flags &&& ~~~ knownFlags = 0)
    (hshell : flags &&& flagRecoveryShell ≠ 0) :
    flags = flagRecoveryShell ||| if flags &&& flagFallbackPrevious ≠ 0 then flagFallbackPrevious
      else 0 := by
  have hall : ∀ n < 256, UInt8.ofNat n &&& ~~~ knownFlags = 0 →
      UInt8.ofNat n &&& flagRecoveryShell ≠ 0 →
      UInt8.ofNat n = flagRecoveryShell |||
        if UInt8.ofNat n &&& flagFallbackPrevious ≠ 0 then flagFallbackPrevious else 0 := by
    decide +kernel
  have h := hall flags.toNat flags.toNat_lt
  rw [UInt8.ofNat_toNat] at h
  exact h hknown hshell

/-- The checksum field can be overwritten in place. -/
theorem splice_image (config : SystemConfig) {checksum zeros : Bytes} (hchecksum : checksum.length = 4)
    (hzeros : zeros.length = 4) :
    splice (config.image checksum) 20 zeros = config.image zeros := by
  have hmagic : configV1Magic.length = 8 := rfl
  simp (disch := simp [hmagic, hchecksum, hzeros]) only [SystemConfig.image, flatten_cons,
    splice_append_right, splice_append_left, hmagic, length_leBytes, Nat.reduceSub]

/-- What is known of an accepted image. -/
structure Accepted (bytes : Bytes) (config : SystemConfig) : Prop where
  length : headerBytes ≤ bytes.length
  image : bytes = config.encode
  ascending : config.services.Pairwise fun s t => s.id < t.id
  precede : Precede config.services
  records : bytes.drop headerBytes = encodeRecords 0 config.services ++
    bytes.drop (headerBytes + config.services.length * recordBytes)
  table : bytes.drop (headerBytes + config.services.length * recordBytes) =
    stringTable config.services

/-- The fixed fields of an accepted header, and its checksum. -/
theorem checkHeader_ok (h : checkHeader grants bytes = .ok ()) : headerBytes ≤ bytes.length ∧
      (∃ crc : UInt32, bytes.drop 0 =
        configV1Magic ++ (leBytes 2 1 ++ (leBytes 2 1 ++ (leBytes 2 headerBytes ++
          (leBytes 2 recordBytes ++ (leBytes 4 bytes.length ++
            (leBytes 4 crc.toNat ++ bytes.drop 24)))))) ∧
        (crc32 (splice bytes 20 (replicate 4 0))).toNat = crc.toNat) ∧
      bytes.drop 52 = replicate 12 0 ++ bytes.drop 64 ∧
      bytes.drop 136 = replicate 8 0 ++ bytes.drop headerBytes := by
  simp only [checkHeader, ok_rules] at h
  obtain ⟨-, hsize, major, hmajor, minor, hminor, header, hheader, record, hrecord, total, htotal, -,
    hfixed, crc, hcrc, -, -, hsum⟩ := h
  obtain ⟨hlength, -, hmagic⟩ : headerBytes ≤ bytes.length ∧ bytes.length ≤ maxConfigBytes ∧
      bytes.take 8 = configV1Magic := by
    simpa only [not_or, Nat.not_lt, not_not] using hsize
  obtain ⟨rfl, rfl, hheaderSize, rfl, htotalSize, hpad52, hpad136⟩ : major = 1 ∧ minor = 1 ∧
      header.toNat = headerBytes ∧ record = 64 ∧ total.toNat = bytes.length ∧
      anyNonzero bytes 52 64 = false ∧ anyNonzero bytes 136 headerBytes = false := by
    simpa only [not_or, not_not, Bool.not_eq_true] using hfixed
  have h144 : 144 ≤ bytes.length := hlength
  refine ⟨hlength, ⟨crc, ?_, not_not.mp hsum⟩, ?_, ?_⟩
  · have h0 : bytes.drop 0 = configV1Magic ++ bytes.drop 8 := by
      rw [← hmagic, List.take_append_drop, List.drop_zero]
    have h8 : bytes.drop 8 = leBytes 2 1 ++ bytes.drop 10 := drop_of_readU16 hmajor
    have h10 : bytes.drop 10 = leBytes 2 1 ++ bytes.drop 12 := drop_of_readU16 hminor
    have h12 : bytes.drop 12 = leBytes 2 headerBytes ++ bytes.drop 14 := by
      rw [← hheaderSize]
      exact drop_of_readU16 hheader
    have h14 : bytes.drop 14 = leBytes 2 recordBytes ++ bytes.drop 16 := drop_of_readU16 hrecord
    have h16 : bytes.drop 16 = leBytes 4 bytes.length ++ bytes.drop 20 := by
      rw [← htotalSize]
      exact drop_of_readU32 htotal
    have h20 : bytes.drop 20 = leBytes 4 crc.toNat ++ bytes.drop 24 := drop_of_readU32 hcrc
    rw [h0, h8, h10, h12, h14, h16, h20]
  · exact drop_of_anyNonzero hpad52 (by omega) rfl
  · exact drop_of_anyNonzero hpad136 hlength rfl

/-- An accepted image is the image of the configuration it parses to. -/
theorem parseConfig_ok (h : parseConfig grants bytes = .ok config) : Accepted bytes config := by
  simp only [parseConfig, ok_rules] at h
  obtain ⟨⟨⟩, hheader, generation, hgeneration, previous, hprevious, count, hcount, health, hhealth,
    strings, hstrings, records, ⟨-, rfl⟩, start, ⟨-, rfl⟩, -, hrecovery, memory, hmemory, -, -,
    ⟨services, offset⟩, hloop, -, hend, hresult⟩ := h
  cases hresult
  obtain ⟨hlength, ⟨crc, h0, hsum⟩, h52, h136⟩ := checkHeader_ok hheader
  simp only [RecoveryRefused, not_or, not_not, ok_rules] at hrecovery
  obtain ⟨-, -, -, ⟨-, htable⟩, hknown, hshell, -, -, -, -, hfallback⟩ := hrecovery
  have hread : ServicesRead bytes (bytes.drop (headerBytes + count.toNat * recordBytes)) count.toNat
      (services, offset) := by
    refine foldlM_range_ok_induction
      (P := ServicesRead bytes (bytes.drop (headerBytes + count.toNat * recordBytes))) hloop
      ⟨rfl, by simp [encodeRecords], rfl, rfl, .nil, ?_⟩
      fun index s s' _ hs hstep => hs.step hstep
    intro front service back heq
    simp at heq
  -- The last string ends where the table ends.
  have hstringTable : bytes.drop (headerBytes + count.toNat * recordBytes) =
      stringTable services := by
    have htable := hread.table
    rw [not_not.mp hend, List.drop_length, append_nil] at htable
    exact htable
  have hservices : services.length = count.toNat := hread.length
  have hlength : 144 ≤ bytes.length := hlength
  have hstringBytes : strings.toNat = (stringTable services).length := by
    rw [← hstringTable, List.length_drop]
    omega
  have htotal : bytes.length = headerBytes + services.length * recordBytes +
      (stringTable services).length := by
    rw [hservices, ← hstringBytes, htable]
  have hprevious' : ((if previous ≠ 0 then some previous else none).getD 0) = previous := by
    split
    · rfl
    next hzero => exact (not_not.mp hzero).symm
  -- One fact for each field, in the order of the image.
  have h24 : bytes.drop 24 = leBytes 8 generation.toNat ++ bytes.drop 32 :=
    drop_of_readU64 hgeneration
  have h32 : bytes.drop 32 = leBytes 8 previous.toNat ++ bytes.drop 40 := drop_of_readU64 hprevious
  have h40 : bytes.drop 40 = leBytes 2 services.length ++ bytes.drop 42 := by
    rw [hservices]
    exact drop_of_readU16 hcount
  have h42 : bytes.drop 42 = [byteAt bytes 42] ++ bytes.drop 43 :=
    drop_of_byteAt (by omega)
  have h43 : bytes.drop 43 = [byteAt bytes 43] ++ bytes.drop 44 :=
    drop_of_byteAt (by omega)
  have h44 : bytes.drop 44 = leBytes 4 health.toNat ++ bytes.drop 48 := drop_of_readU32 hhealth
  have h48 : bytes.drop 48 = leBytes 4 (stringTable services).length ++ bytes.drop 52 := by
    rw [← hstringBytes]
    exact drop_of_readU32 hstrings
  have h64 : bytes.drop 64 = memory.encode ++ bytes.drop 136 := parseMemory_ok hmemory
  let config : SystemConfig :=
    ⟨generation, if previous ≠ 0 then some previous else none, ⟨byteAt bytes 42, health,
      byteAt bytes 43 &&& flagFallbackPrevious ≠ 0, true⟩, memory, services⟩
  have hflags : byteAt bytes 43 = config.flags := by
    refine (flags_eq hknown hshell).trans ?_
    simp only [SystemConfig.flags, config, decide_eq_true_eq]
  have himage : bytes = config.image (leBytes 4 crc.toNat) := by
    calc bytes = bytes.drop 0 := rfl
      _ = _ := by
        rw [h0, htotal, h24, h32, h40, h42, h43, hflags, h44, h48, h52, h64, h136, hread.records,
          hstringTable]
        simp only [SystemConfig.image, flatten_cons, flatten_nil, append_nil, config, hprevious']
  have hchecksum : (crc32 (config.image (replicate 4 0))).toNat = crc.toNat := by
    rw [← splice_image config (length_leBytes 4 crc.toNat) List.length_replicate, ← himage]
    exact hsum
  refine ⟨hlength, ?_, hread.ascending, hread.precede, ?_, ?_⟩
  · rw [SystemConfig.encode, hchecksum]
    exact himage
  · rw [hservices]
    exact hread.records
  · rw [hservices]
    exact hstringTable

/-- The first service refers to the second. -/
def DependsOn (services : List ServiceConfig) (a b : UInt32) : Prop :=
  ∃ service ∈ services, service.id = a ∧ b ∈ service.dependencies

/-- A dependency has the smaller number. -/
theorem lt_of_dependsOn
    (hascending : services.Pairwise fun s t => s.id < t.id) (hprecede : Precede services)
    {a b : UInt32} (h : DependsOn services a b) : b < a := by
  obtain ⟨service, hservice, rfl, hb⟩ := h
  obtain ⟨front, back, rfl⟩ := List.append_of_mem hservice
  obtain ⟨s, hs, rfl⟩ := hprecede front service back rfl b hb
  exact (List.pairwise_append.mp hascending).2.2 s hs service List.mem_cons_self

/-- No service depends on itself, through others or directly. -/
theorem dependencies_acyclic
    (hascending : services.Pairwise fun s t => s.id < t.id) (hprecede : Precede services)
    (id : UInt32) : ¬ Relation.TransGen (DependsOn services) id id := by
  have hlt : ∀ {a b}, Relation.TransGen (DependsOn services) a b → b < a := by
    intro a b h
    induction h with
    | single hab => exact lt_of_dependsOn hascending hprecede hab
    | tail _ hbc ih => exact UInt32.lt_trans (lt_of_dependsOn hascending hprecede hbc) ih
  exact fun h => UInt32.lt_irrefl _ (hlt h)

/-- A record refers to its strings by their place after the strings of the records in front. -/
theorem Accepted.record (h : Accepted bytes config) {front back : List ServiceConfig}
    (hservices : config.services = front ++ service :: back) :
    slice bytes (headerBytes + front.length * recordBytes) recordBytes =
      some (service.encode (stringTable front).length) := by
  have hrecords := h.records
  rw [hservices, encodeRecords_append, Nat.zero_add, encodeRecords] at hrecords
  refine slice_of_eq_append (bytes.take headerBytes ++ encodeRecords 0 front) _
    (encodeRecords ((stringTable front).length + service.strings.length) back ++
      bytes.drop (headerBytes + (front ++ service :: back).length * recordBytes)) ?_ ?_ ?_
  · conv_lhs => rw [← List.take_append_drop headerBytes bytes, hrecords]
    simp
  · rw [length_append, length_encodeRecords, List.length_take, Nat.min_eq_left h.length]
  · exact service.length_encode _

/-- **The configuration format is canonical.** An accepted image is the only image of its
configuration, services depend only on services in front of them, and the string table is the
concatenation of the parsed strings. -/
theorem parseConfig_canonical {grants : Reservation → Bool} {bytes : Bytes} {config : SystemConfig}
    (h : parseConfig grants bytes = .ok config) :
    (∀ grants' bytes', parseConfig grants' bytes' = .ok config → bytes' = bytes) ∧
      Precede config.services ∧ (∀ id, ¬ Relation.TransGen (DependsOn config.services) id id) ∧
      bytes.drop (headerBytes + config.services.length * recordBytes) =
        stringTable config.services ∧
      ∀ front service back, config.services = front ++ service :: back →
        slice bytes (headerBytes + front.length * recordBytes) recordBytes =
          some (service.encode (stringTable front).length) := by
  have haccepted := parseConfig_ok h
  refine ⟨?_, haccepted.precede, ?_, haccepted.table, fun _ _ _ => haccepted.record⟩
  · intro grants' bytes' h'
    rw [haccepted.image, (parseConfig_ok h').image]
  · exact dependencies_acyclic haccepted.ascending haccepted.precede

/-- A log service and a network service that depends on it. -/
def sampleConfig : SystemConfig where
  generation := 2
  previousGeneration := some 1
  recovery := ⟨3, 60000, true, true⟩
  memory := ⟨8192, .unlimited, .unlimited, .unlimited, 65536, 8388608, 33554432, 256, by decide⟩
  services :=
    [⟨1, .bootRequired, .recoveryShell, 0, 4, 10, 5000, 0, 0x2, [], [108, 111, 103],
        [47, 98, 105, 110, 47, 108, 111, 103]⟩,
      ⟨7, .bootOptional, .restart, 2, 4, 10, 5000, 0, 0x3, [1], [110, 101, 116],
        [47, 98, 105, 110, 47, 110, 101, 116]⟩]

theorem parseConfig_canonical_sample :
    parseConfig (fun _ => true) sampleConfig.encode = .ok sampleConfig ∧
      (∀ grants bytes, parseConfig grants bytes = .ok sampleConfig → bytes = sampleConfig.encode) ∧
      ∀ id, ¬ Relation.TransGen (DependsOn sampleConfig.services) id id := by
  have h : parseConfig (fun _ => true) sampleConfig.encode = .ok sampleConfig := by
    decide +kernel
  obtain ⟨honly, -, hacyclic, -⟩ := parseConfig_canonical h
  exact ⟨h, honly, hacyclic⟩

end Troe.Scfg
