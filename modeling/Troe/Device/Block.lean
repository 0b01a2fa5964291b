import Troe.Lib.Prog
import Troe.Lib.Disk
import Troe.Lib.Bytes

/-!
# Block devices and block regions (`troe-block`)

The synchronous block contract: geometry and limits checked at construction, and a region that
translates and bounds every request before the device sees it. Device requests and heap
reservations are the calls of a `Prog`; `deviceEnv` is the device behind them, with a volatile
cache of block writes.
-/

namespace Troe.Block

open Lib

def minLogicalBlockBytes : ℕ := 512
def maxLogicalBlockBytes : ℕ := 64 * 1024
def maxTransferBytes : ℕ := 1024 * 1024
def synchronousQueueDepth : ℕ := 1

/-- Stable failures at the block capability boundary. -/
inductive BlockError where
  | invalidGeometry
  | invalidLimits
  | invalidRegion
  | emptyTransfer
  | misaligned
  | outOfBounds
  | transferTooLarge
  | bufferLength
  | readOnly
  | unsupported
  | device
  | timeout
deriving DecidableEq

/-- Device geometry and durability properties. -/
structure BlockGeometry where
  logicalBlockBytes : ℕ
  blockCount : ℕ
  requiredAlignmentBlocks : ℕ
  supportsFlush : Bool
  supportsForceUnitAccess : Bool
deriving DecidableEq

/-- `u32::is_power_of_two`. -/
def isPowerOfTwo (n : ℕ) : Bool := n != 0 && 2 ^ n.log2 == n

/-- `BlockGeometry::new`. -/
def BlockGeometry.new (logicalBlockBytes blockCount requiredAlignmentBlocks : ℕ)
    (supportsFlush supportsForceUnitAccess : Bool) : Except BlockError BlockGeometry :=
  if ¬ (minLogicalBlockBytes ≤ logicalBlockBytes ∧ logicalBlockBytes ≤ maxLogicalBlockBytes)
      ∨ ¬ isPowerOfTwo logicalBlockBytes
      ∨ blockCount = 0
      ∨ requiredAlignmentBlocks = 0
      ∨ ¬ isPowerOfTwo requiredAlignmentBlocks
      ∨ (checkedMul 64 blockCount logicalBlockBytes).isNone then
    .error .invalidGeometry
  else
    .ok { logicalBlockBytes, blockCount, requiredAlignmentBlocks, supportsFlush,
          supportsForceUnitAccess }

/-- Per-capability request ceilings. -/
structure BlockLimits where
  maxTransferBlocks : ℕ
  maxTransferBytes : ℕ
  queueDepth : ℕ
deriving DecidableEq

/-- `BlockLimits::new`. -/
def BlockLimits.new (maxBlocks maxBytes queueDepth : ℕ) : Except BlockError BlockLimits :=
  if maxBlocks = 0 ∨ maxBytes = 0 ∨ Block.maxTransferBytes < maxBytes
      ∨ queueDepth ≠ synchronousQueueDepth then
    .error .invalidLimits
  else
    .ok { maxTransferBlocks := maxBlocks, maxTransferBytes := maxBytes, queueDepth }

/-- Mutation authority carried by one block-region capability. -/
inductive BlockAccess where
  | readOnly
  | readWrite
deriving DecidableEq

/-! ## The device behind a region -/

/-- What a program can ask of its surroundings: a device request at an absolute block address, or
a heap reservation. -/
inductive DeviceCall where
  | readBlocks (startBlock blockCount : ℕ)
  | writeBlocks (startBlock blockCount : ℕ) (source : Bytes) (forceUnitAccess : Bool)
  | flush
  | tryReserve (bytes : ℕ)

/-- The answer to each call. -/
@[reducible] def DeviceCall.Answer : DeviceCall → Type
  | .readBlocks _ _ => Except BlockError Bytes
  | .writeBlocks _ _ _ _ => Except BlockError Unit
  | .flush => Except BlockError Unit
  | .tryReserve _ => Bool

/-- Device requests and heap reservations. -/
@[reducible] def Device : Effects := { Call := DeviceCall, Answer := DeviceCall.Answer }

/-- Make one device call. -/
def request {ε : Type} (c : DeviceCall) : Prog Device ε c.Answer := Prog.perform (E := Device) c

/-- `try_reserve_exact`, with the error a refusal is mapped to. -/
def tryReserve {ε : Type} (bytes : ℕ) (refused : ε) : Prog Device ε Unit := do
  let granted : Bool ← request (.tryReserve bytes)
  .reject (granted = false) refused

/-- The block writes that make up one request. -/
def blockWrites (blockBytes startBlock blockCount : ℕ) (source : Bytes) : List (ℕ × Bytes) :=
  (List.range blockCount).map fun i =>
    (startBlock + i, (source.drop (i * blockBytes)).take blockBytes)

/-- The bytes of `blockCount` consecutive blocks. -/
def readBack (contents : ℕ → Bytes) (startBlock blockCount : ℕ) : Bytes :=
  (List.range blockCount).flatMap fun i => contents (startBlock + i)

/-- A device with `blockBytes`-byte blocks and a volatile cache. When `faults` is set any request
may fail, a failed write having put any part of its blocks into the cache, and any reservation may
be refused. Power loss keeps an arbitrary subset of the block writes since the last successful
flush, those of an interrupted write included. -/
def deviceEnv (blockBytes : ℕ) (faults : Bool) : Env Device (Media ℕ Bytes) where
  answer
    | m, .readBlocks start count, r, m' =>
      m' = m ∧ (r = .ok (readBack m.view start count) ∨ faults ∧ ∃ e, r = .error e)
    | m, .writeBlocks start count source _, r, m' =>
      r = .ok () ∧ m' = m.write (blockWrites blockBytes start count source) ∨
      faults ∧ ∃ e ws, r = .error e ∧ ws.Sublist (blockWrites blockBytes start count source) ∧
        m' = m.write ws
    | m, .flush, r, m' =>
      r = .ok () ∧ m' = m.flush ∨ faults ∧ m' = m ∧ ∃ e, r = .error e
    | m, .tryReserve _, r, m' => m' = m ∧ (r = true ∨ faults = true)
  lose
    | m, .writeBlocks start count source _, m' =>
      (m.write (blockWrites blockBytes start count source)).Survives m'
    | m, _, m' => m.Survives m'

/-- The same device when nothing fails. -/
def reliable (blockBytes : ℕ) : (c : DeviceCall) → Media ℕ Bytes → c.Answer × Media ℕ Bytes
  | .readBlocks start count, m => (.ok (readBack m.view start count), m)
  | .writeBlocks start count source _, m =>
    (.ok (), m.write (blockWrites blockBytes start count source))
  | .flush, m => (.ok (), m.flush)
  | .tryReserve _, m => (true, m)

theorem reliable_answer (blockBytes : ℕ) (faults : Bool) (c : DeviceCall) (m : Media ℕ Bytes) :
    (deviceEnv blockBytes faults).answer m c (reliable blockBytes c m).1
      (reliable blockBytes c m).2 := by
  cases c with
  | readBlocks start count => exact ⟨rfl, .inl rfl⟩
  | writeBlocks start count source fua => exact .inl ⟨rfl, rfl⟩
  | flush => exact .inl ⟨rfl, rfl⟩
  | tryReserve bytes => exact ⟨rfl, .inl rfl⟩

/-! ## Regions -/

/-- Geometry of a granted region, relative to its own block zero. -/
structure BlockRegionInfo where
  blockBytes : ℕ
  blockCount : ℕ
  requiredAlignmentBlocks : ℕ
  supportsFlush : Bool
  supportsForceUnitAccess : Bool
  access : BlockAccess
  limits : BlockLimits

/-- Bounds-checked authority over one contiguous device region. The device itself is the
environment. -/
structure BlockRegion where
  startBlock : ℕ
  blockCount : ℕ
  access : BlockAccess
  limits : BlockLimits
  geometry : BlockGeometry
deriving DecidableEq

/-- `validate_geometry`. -/
def validateGeometry (geometry : BlockGeometry) : Except BlockError Unit :=
  (BlockGeometry.new geometry.logicalBlockBytes geometry.blockCount
    geometry.requiredAlignmentBlocks geometry.supportsFlush
    geometry.supportsForceUnitAccess).map fun _ => ()

namespace BlockRegion

/-- `BlockRegion::new`, over a device that reports `geometry`. -/
def new (geometry : BlockGeometry) (startBlock blockCount : ℕ) (access : BlockAccess)
    (limits : BlockLimits) : Except BlockError BlockRegion := do
  validateGeometry geometry
  let some finish := checkedAdd 64 startBlock blockCount | throw .invalidRegion
  if blockCount = 0 ∨ geometry.blockCount < finish
      ∨ startBlock % geometry.requiredAlignmentBlocks ≠ 0
      ∨ limits.maxTransferBytes < geometry.logicalBlockBytes then
    throw .invalidRegion
  return { startBlock, blockCount, access, limits, geometry }

/-- `BlockRegion::info`. -/
def info (region : BlockRegion) : BlockRegionInfo where
  blockBytes := region.geometry.logicalBlockBytes
  blockCount := region.blockCount
  requiredAlignmentBlocks := region.geometry.requiredAlignmentBlocks
  supportsFlush := region.geometry.supportsFlush
  supportsForceUnitAccess := region.geometry.supportsForceUnitAccess
  access := region.access
  limits := region.limits

/-- `BlockRegion::validate_request`: the absolute address of an admissible request. -/
def validateRequest (region : BlockRegion) (startBlock blockCount bufferBytes : ℕ) :
    Except BlockError ℕ := do
  if blockCount = 0 then throw .emptyTransfer
  let alignment := region.geometry.requiredAlignmentBlocks
  if startBlock % alignment ≠ 0 ∨ blockCount % alignment ≠ 0 then throw .misaligned
  let some finish := checkedAdd 64 startBlock blockCount | throw .outOfBounds
  if region.blockCount < finish then throw .outOfBounds
  let some bytes := checkedMul 64 blockCount region.geometry.logicalBlockBytes
    | throw .transferTooLarge
  if region.limits.maxTransferBlocks < blockCount ∨ region.limits.maxTransferBytes < bytes then
    throw .transferTooLarge
  if bufferBytes ≠ bytes then throw .bufferLength
  let some absolute := checkedAdd 64 region.startBlock startBlock | throw .outOfBounds
  return absolute

/-- `BlockRegion::read_blocks` into a buffer of `bufferBytes` bytes. -/
def readBlocks (region : BlockRegion) (startBlock blockCount bufferBytes : ℕ) :
    Prog Device BlockError Bytes := do
  let absolute ← .ofExcept (region.validateRequest startBlock blockCount bufferBytes)
  .ofExcept (← request (.readBlocks absolute blockCount))

/-- `BlockRegion::write_blocks`. -/
def writeBlocks (region : BlockRegion) (startBlock blockCount : ℕ) (source : Bytes)
    (forceUnitAccess : Bool) : Prog Device BlockError Unit := do
  .reject (region.access ≠ .readWrite) .readOnly
  .reject (forceUnitAccess ∧ ¬ region.geometry.supportsForceUnitAccess) .unsupported
  let absolute ← .ofExcept (region.validateRequest startBlock blockCount source.length)
  .ofExcept (← request (.writeBlocks absolute blockCount source forceUnitAccess))

/-- `BlockRegion::flush`. -/
def flush (region : BlockRegion) : Prog Device BlockError Unit := do
  .reject (region.access ≠ .readWrite) .readOnly
  .reject (¬ region.geometry.supportsFlush) .unsupported
  .ofExcept (← request .flush)

/-! ### What a granted region guarantees -/

/-- A region some call of `BlockRegion::new` returned. -/
def Granted (region : BlockRegion) : Prop :=
  ∃ geometry startBlock blockCount access limits,
    new geometry startBlock blockCount access limits = .ok region

/-- A granted region lies inside its device, whose blocks have an admissible size. -/
theorem Granted.bounds {region : BlockRegion} (h : region.Granted) :
    region.geometry.logicalBlockBytes ≤ maxLogicalBlockBytes ∧
      minLogicalBlockBytes ≤ region.geometry.logicalBlockBytes ∧
      region.startBlock + region.blockCount < 2 ^ 64 := by
  obtain ⟨geometry, startBlock, blockCount, access, limits, hnew⟩ := h
  unfold new validateGeometry BlockGeometry.new at hnew
  split at hnew
  · cases hnew
  next hvalid =>
    simp only [not_or, not_not] at hvalid
    split at hnew
    next finish hfinish =>
      rw [checkedAdd_eq_some] at hfinish
      split at hnew
      · cases hnew
      · cases hnew
        exact ⟨hvalid.1.2, hvalid.1.1, hfinish.1⟩
    · cases hnew

/-- An aligned request inside a granted region's bounds and limits is admitted. -/
theorem validateRequest_eq_ok {region : BlockRegion} (h : region.Granted)
    (halign : region.geometry.requiredAlignmentBlocks = 1) {startBlock blockCount : ℕ}
    (hcount : blockCount ≠ 0) (hbound : startBlock + blockCount ≤ region.blockCount)
    (hblocks : blockCount ≤ region.limits.maxTransferBlocks)
    (hbytes : blockCount * region.geometry.logicalBlockBytes ≤ region.limits.maxTransferBytes)
    (hfit : blockCount * region.geometry.logicalBlockBytes < 2 ^ 64) :
    region.validateRequest startBlock blockCount (blockCount * region.geometry.logicalBlockBytes)
      = .ok (region.startBlock + startBlock) := by
  obtain ⟨-, -, hregion⟩ := h.bounds
  have h1 : checkedAdd 64 startBlock blockCount = some (startBlock + blockCount) := by
    rw [checkedAdd_eq_some]
    omega
  have h2 : checkedMul 64 blockCount region.geometry.logicalBlockBytes
      = some (blockCount * region.geometry.logicalBlockBytes) := by
    rw [checkedMul_eq_some]
    exact ⟨hfit, rfl⟩
  have h3 : checkedAdd 64 region.startBlock startBlock = some (region.startBlock + startBlock) := by
    rw [checkedAdd_eq_some]
    omega
  unfold validateRequest
  simp only [hcount, halign, Nat.mod_one, ne_eq, not_true_eq_false, or_self, if_false, h1, h2, h3,
    not_lt.mpr hbound, not_lt.mpr hblocks, not_lt.mpr hbytes]
  rfl

end BlockRegion

/-! ## Specifications against the device -/

@[simp] theorem readBack_one (contents : ℕ → Bytes) (startBlock : ℕ) :
    readBack contents startBlock 1 = contents startBlock := by
  simp [readBack]

theorem blockWrites_one {blockBytes : ℕ} {source : Bytes} (h : source.length = blockBytes)
    (startBlock : ℕ) : blockWrites blockBytes startBlock 1 source = [(startBlock, source)] := by
  simp [blockWrites, ← h]

section

variable {bb : ℕ} {faults : Bool} {m : Media ℕ Bytes} {ε : Type} {bytes start count absolute : ℕ}
  {region : BlockRegion} {Q : Outcome BlockError Unit → Media ℕ Bytes → Prop}

theorem wp_tryReserve {refused : ε}
    {Q : Outcome ε Unit → Media ℕ Bytes → Prop} (hdone : Q (.done ()) m)
    (hfailed : faults → Q (.failed refused) m) (hlost : ∀ m', m.Survives m' → Q .lost m') :
    (tryReserve bytes refused).wp (deviceEnv bb faults) Q m := by
  rw [tryReserve, Prog.wp_bind, request, Prog.wp_perform]
  refine ⟨?_, hlost⟩
  rintro (granted : Bool) m' ⟨rfl, hgranted⟩
  refine Prog.wp_reject.mpr ⟨?_, fun _ => hdone⟩
  rintro rfl
  exact hfailed (by simpa using hgranted)

theorem wp_tryReserve_bind {β : Type} {refused : ε} {f : Unit → Prog Device ε β}
    {Q : Outcome ε β → Media ℕ Bytes → Prop} (hdone : (f ()).wp (deviceEnv bb faults) Q m)
    (hfailed : faults → Q (.failed refused) m) (hlost : ∀ m', m.Survives m' → Q .lost m') :
    (tryReserve bytes refused >>= f).wp (deviceEnv bb faults) Q m :=
  Prog.wp_bind.mpr (wp_tryReserve hdone hfailed hlost)

theorem BlockRegion.wp_readBlocks (hvalid : region.validateRequest start count bytes = .ok absolute)
    {Q : Outcome BlockError Bytes → Media ℕ Bytes → Prop}
    (hdone : Q (.done (readBack m.view absolute count)) m)
    (hfailed : faults → ∀ e, Q (.failed e) m) (hlost : ∀ m', m.Survives m' → Q .lost m') :
    (region.readBlocks start count bytes).wp (deviceEnv bb faults) Q m := by
  refine Prog.wp_ofExcept_bind hvalid (Prog.wp_bind.mpr (Prog.wp_perform.mpr ⟨?_, hlost⟩))
  rintro r m' ⟨rfl, rfl | ⟨hfaults, e, rfl⟩⟩
  · exact Prog.wp_pure.mpr hdone
  · exact Prog.wp_throw.mpr (hfailed hfaults e)

theorem BlockRegion.wp_writeBlocks {source : Bytes} (haccess : region.access = .readWrite)
    (hvalid : region.validateRequest start count source.length = .ok absolute)
    (hdone : Q (.done ()) (m.write (blockWrites bb absolute count source)))
    (hfailed : faults → ∀ e ws, ws.Sublist (blockWrites bb absolute count source) →
      Q (.failed e) (m.write ws))
    (hlost : ∀ m', (m.write (blockWrites bb absolute count source)).Survives m' → Q .lost m') :
    (region.writeBlocks start count source false).wp (deviceEnv bb faults) Q m := by
  refine Prog.wp_reject_bind (not_not.mpr haccess) (Prog.wp_reject_bind (by simp) ?_)
  refine Prog.wp_ofExcept_bind hvalid (Prog.wp_bind.mpr (Prog.wp_perform.mpr ⟨?_, hlost⟩))
  rintro r m' (⟨rfl, rfl⟩ | ⟨hfaults, e, ws, rfl, hws, rfl⟩)
  · exact Prog.wp_pure.mpr hdone
  · exact Prog.wp_throw.mpr (hfailed hfaults e ws hws)

theorem BlockRegion.wp_flush (haccess : region.access = .readWrite)
    (hflush : region.geometry.supportsFlush = true)
    (hdone : Q (.done ()) m.flush)
    (hfailed : faults → ∀ e, Q (.failed e) m) (hlost : ∀ m', m.Survives m' → Q .lost m') :
    region.flush.wp (deviceEnv bb faults) Q m := by
  refine Prog.wp_reject_bind (not_not.mpr haccess) (Prog.wp_reject_bind (by simp [hflush]) ?_)
  refine Prog.wp_bind.mpr (Prog.wp_perform.mpr ⟨?_, hlost⟩)
  rintro r m' (⟨rfl, rfl⟩ | ⟨hfaults, rfl, e, rfl⟩)
  · exact Prog.wp_pure.mpr hdone
  · exact Prog.wp_throw.mpr (hfailed hfaults e)

end

end Troe.Block
