import Troe.Device.Block
import Troe.Storage.Checksum

/-!
# Dual-slot transactions (`troe-txslot`)

Two data/commit block pairs in a four-block region. A slot is visible only when its data and commit
blocks agree, and a commit writes the slot that is not active in data, flush, marker, flush order.
-/

namespace Troe.TxSlot

open Lib Block
open List (append_assoc replicate)

/-- Data-block identifier, `TXDTv1` and two zero bytes. -/
def dataMagic : Bytes := [0x54, 0x58, 0x44, 0x54, 0x76, 0x31, 0, 0]

/-- Commit-block identifier, `TXCMv1` and two zero bytes. -/
def commitMagic : Bytes := [0x54, 0x58, 0x43, 0x4d, 0x76, 0x31, 0, 0]

def transactionBlocks : ℕ := 4
def dataHeaderBytes : ℕ := 32
def checksumOffset : ℕ := 20

/-- Stable persistence transaction failure. -/
inductive PersistError where
  | unsupportedRegion
  | corrupt
  | payloadTooLarge
  | generationExhausted
  | metadataExhausted
  | block (error : BlockError)
deriving DecidableEq

/-- The contents of one committed slot. -/
structure Candidate where
  slot : ℕ
  generation : ℕ
  payload : Bytes
deriving DecidableEq

/-- One opened four-block store. -/
structure DualSlotStore where
  region : BlockRegion
  blockBytes : ℕ
  active : Option Candidate
deriving DecidableEq

/-! ## Block formats -/

/-- A heap buffer of `bytes` zero bytes. -/
def zeroed (bytes : ℕ) : Prog Device PersistError Bytes := do
  tryReserve bytes .metadataExhausted
  return replicate bytes 0

def readU32 (bytes : Bytes) (offset : ℕ) : Except PersistError ℕ :=
  (readLe 4 bytes offset).elim (.error .corrupt) .ok

def readU64 (bytes : Bytes) (offset : ℕ) : Except PersistError ℕ :=
  (readLe 8 bytes offset).elim (.error .corrupt) .ok

def crc32ZeroedChecksum (bytes : Bytes) : ℕ :=
  (Checksum.crc32WithZeroedField bytes checksumOffset).toNat

/-- A zeroed block with the data record of `encode_data` in it, up to the checksum. -/
def fillData (block : Bytes) (generation : ℕ) (payload : Bytes) : Bytes :=
  let block := splice block 0 dataMagic
  let block := splice block 8 (leBytes 8 generation)
  let block := splice block 16 (leBytes 4 payload.length)
  splice block dataHeaderBytes payload

/-- A zeroed block with the commit record of `encode_commit` in it, up to the checksum. -/
def fillCommit (block : Bytes) (generation dataChecksum : ℕ) : Bytes :=
  let block := splice block 0 commitMagic
  let block := splice block 8 (leBytes 8 generation)
  splice block 16 (leBytes 4 dataChecksum)

/-- Store a block's own checksum in it. -/
def sealBlock (block : Bytes) : Bytes :=
  splice block checksumOffset (leBytes 4 (crc32ZeroedChecksum block))

/-- `encode_data`. -/
def encodeData (blockBytes generation : ℕ) (payload : Bytes) : Prog Device PersistError Bytes := do
  let block ← zeroed blockBytes
  .reject (2 ^ 32 ≤ payload.length) .payloadTooLarge
  return sealBlock (fillData block generation payload)

/-- `encode_commit`. -/
def encodeCommit (blockBytes generation dataChecksum : ℕ) : Prog Device PersistError Bytes := do
  let block ← zeroed blockBytes
  return sealBlock (fillCommit block generation dataChecksum)

/-- `parse_data`: generation, payload and checksum of a canonical data block. -/
def parseData (block : Bytes) : Prog Device PersistError (Option (ℕ × Bytes × ℕ)) := do
  if slice block 0 8 ≠ some dataMagic then return none
  let stored ← .ofExcept (readU32 block 20)
  if crc32ZeroedChecksum block ≠ stored then return none
  if ((block.drop 24).take (dataHeaderBytes - 24)).any (· ≠ 0) then return none
  let generation ← .ofExcept (readU64 block 8)
  let length ← .ofExcept (readU32 block 16)
  let finish ← .ofOption .corrupt (checkedAdd 64 dataHeaderBytes length)
  if generation = 0 ∨ block.length < finish ∨ (block.drop finish).any (· ≠ 0) then return none
  tryReserve length .metadataExhausted
  let dataChecksum ← .ofExcept (readU32 block 20)
  return some (generation, (block.drop dataHeaderBytes).take (finish - dataHeaderBytes),
    dataChecksum)

/-- `parse_commit`: whether a commit block names this generation and data checksum. The source's
`&&` chain stops at the first failed comparison. -/
def parseCommit (block : Bytes) (generation dataChecksum : ℕ) : Except PersistError Bool := do
  if slice block 0 8 ≠ some commitMagic then return false
  if (← readU64 block 8) ≠ generation then return false
  if (← readU32 block 16) ≠ dataChecksum then return false
  if crc32ZeroedChecksum block ≠ (← readU32 block 20) then return false
  return (block.drop 24).all (· = 0)

/-! ### The two formats as concatenations

Both blocks are a magic, a generation, one 32-bit word, the checksum, and a body. -/

/-- A block of either format. -/
def layout (magic : Bytes) (generation word checksum : ℕ) (body : Bytes) : Bytes :=
  magic ++ (leBytes 8 generation ++ (leBytes 4 word ++ (leBytes 4 checksum ++ body)))

section layout

variable {magic body : Bytes} {generation word checksum : ℕ}

section

variable (hmagic : magic.length = 8)
include hmagic

theorem length_layout : (layout magic generation word checksum body).length = 24 + body.length := by
  simp only [layout, List.length_append, length_leBytes, hmagic]
  omega

theorem slice_magic_layout : slice (layout magic generation word checksum body) 0 8 = some magic :=
  slice_of_eq_append [] magic _ rfl rfl hmagic

theorem drop_layout : (layout magic generation word checksum body).drop 24 = body := by
  have hpre : (magic ++ leBytes 8 generation ++ leBytes 4 word ++ leBytes 4 checksum).length
      = 24 := by
    simp [hmagic]
  rw [layout, ← hpre, ← append_assoc, ← append_assoc, ← append_assoc]
  exact List.drop_left

/-- The fields as the parsers read them. -/
theorem layout_reads {block : Bytes} (hblock : block = layout magic generation word checksum body)
    (hgeneration : generation < 2 ^ 64) (hword : word < 2 ^ 32) (hchecksum : checksum < 2 ^ 32) :
    slice block 0 8 = some magic ∧ readU64 block 8 = .ok generation ∧
      readU32 block 16 = .ok word ∧ readU32 block 20 = .ok checksum ∧ block.drop 24 = body := by
  rw [hblock]
  refine ⟨slice_magic_layout hmagic, ?_, ?_, ?_, drop_layout hmagic⟩
  all_goals
    simp (disch := simp [hmagic]) only [readU64, readU32, layout, readLe_append_right, hmagic,
      length_leBytes, Nat.reduceSub]
    rw [readLe_append_left (by omega)]
    rfl

theorem splice_checksum_layout (checksum' : ℕ) :
    splice (layout magic generation word checksum body) checksumOffset (leBytes 4 checksum')
      = layout magic generation word checksum' body := by
  rw [splice_of_eq_append (magic ++ leBytes 8 generation ++ leBytes 4 word) (leBytes 4 checksum)
    body (by simp [layout]) (by simp [hmagic, checksumOffset]) (by simp)]
  simp [layout]

end

theorem crc32ZeroedChecksum_lt (bytes : Bytes) : crc32ZeroedChecksum bytes < 2 ^ 32 :=
  BitVec.isLt _

/-- The checksum does not depend on the checksum field. -/
theorem crc32ZeroedChecksum_layout (hmagic : magic.length = 8)
    (hlength : 24 + body.length < 2 ^ 64) (checksum' : ℕ) :
    crc32ZeroedChecksum (layout magic generation word checksum' body)
      = crc32ZeroedChecksum (layout magic generation word checksum body) := by
  have hlen : (layout magic generation word checksum body).length = 24 + body.length :=
    length_layout hmagic
  rw [crc32ZeroedChecksum, ← splice_checksum_layout hmagic checksum',
    Checksum.crc32WithZeroedField_splice (length_leBytes 4 _)
      (by rw [hlen, checksumOffset]; omega) (by rw [hlen]; omega)]
  rfl

/-- A sealed block holds its own checksum. -/
theorem sealBlock_layout (magic : Bytes) (generation word : ℕ) (hmagic : magic.length = 8)
    (hlength : 24 + body.length < 2 ^ 64) :
    ∃ c, sealBlock (layout magic generation word 0 body)
        = layout magic generation word c body ∧ c < 2 ^ 32 ∧
      c = crc32ZeroedChecksum (layout magic generation word c body) :=
  ⟨_, splice_checksum_layout hmagic _, crc32ZeroedChecksum_lt _,
    (crc32ZeroedChecksum_layout hmagic hlength _).symm⟩

/-- The three header fields written into a zeroed block. -/
theorem splice_header_layout {blockBytes : ℕ} (hmagic : magic.length = 8) (hfit : 24 ≤ blockBytes) :
    splice (splice (splice (replicate blockBytes 0) 0 magic) 8 (leBytes 8 generation)) 16
        (leBytes 4 word)
      = layout magic generation word 0 (replicate (blockBytes - 24) 0) := by
  have hsplit : replicate blockBytes (0 : UInt8)
      = [] ++ (replicate 8 0 ++ (replicate 8 0 ++ (replicate 4 0 ++
          (replicate 4 0 ++ replicate (blockBytes - 24) 0)))) := by
    simp only [← List.replicate_add, List.nil_append]
    congr 1
    omega
  rw [splice_of_eq_append [] (replicate 8 0) _ hsplit List.length_nil (by simp [hmagic]),
    List.nil_append,
    splice_of_eq_append magic (replicate 8 0) _ rfl hmagic (by simp),
    splice_of_eq_append (magic ++ leBytes 8 generation) (replicate 4 0)
      (replicate 4 0 ++ replicate (blockBytes - 24) 0) (by simp) (by simp [hmagic])
      (by simp)]
  simp only [layout, append_assoc]
  rfl

end layout

theorem fillData_layout {blockBytes generation : ℕ} {payload : Bytes}
    (hfit : payload.length + 32 ≤ blockBytes) :
    fillData (replicate blockBytes 0) generation payload
      = layout dataMagic generation payload.length 0 (replicate 8 0 ++
          (payload ++ replicate (blockBytes - (32 + payload.length)) 0)) := by
  have hbody : replicate (blockBytes - 24) (0 : UInt8)
      = replicate 8 0 ++ (replicate payload.length 0 ++
          replicate (blockBytes - (32 + payload.length)) 0) := by
    simp only [← List.replicate_add]
    congr 1
    omega
  unfold fillData
  simp only
  rw [splice_header_layout rfl (by omega), hbody,
    splice_of_eq_append (dataMagic ++ leBytes 8 generation ++ leBytes 4 payload.length ++
      leBytes 4 0 ++ replicate 8 0) (replicate payload.length 0)
      (replicate (blockBytes - (32 + payload.length)) 0) (by simp [layout])
      (by simp [dataMagic, dataHeaderBytes]) (by simp)]
  simp [layout]

theorem fillCommit_layout {blockBytes generation dataChecksum : ℕ} (hfit : 24 ≤ blockBytes) :
    fillCommit (replicate blockBytes 0) generation dataChecksum
      = layout commitMagic generation dataChecksum 0 (replicate (blockBytes - 24) 0) :=
  splice_header_layout rfl hfit

/-! ## Opening and committing -/

/-- `read_candidate`. -/
def readCandidate (region : BlockRegion) (slot blockBytes : ℕ) :
    Prog Device PersistError (Option Candidate) := do
  let _ ← zeroed blockBytes
  let _ ← zeroed blockBytes
  let dataLba := slot * 2
  let data ← (region.readBlocks dataLba 1 blockBytes).mapErr .block
  let commit ← (region.readBlocks (dataLba + 1) 1 blockBytes).mapErr .block
  if data.all (· = 0) ∧ commit.all (· = 0) then return none
  let some (generation, payload, dataChecksum) ← parseData data | return none
  if ¬ (← .ofExcept (parseCommit commit generation dataChecksum)) then return none
  return some { slot, generation, payload }

/-- The choice `open` makes between the two slots. -/
def chooseActive : Option Candidate → Option Candidate → Except PersistError (Option Candidate)
  | some left, some right =>
    if left.generation = right.generation then .error .corrupt
    else .ok (some (if right.generation < left.generation then left else right))
  | some candidate, none => .ok (some candidate)
  | none, some candidate => .ok (some candidate)
  | none, none => .ok none

/-- Whether `open` accepts a region's geometry, authority and limits. -/
def supported (info : BlockRegionInfo) : Bool :=
  info.access = .readWrite && info.supportsFlush && info.requiredAlignmentBlocks = 1 &&
    info.blockCount = transactionBlocks && dataHeaderBytes + 1 ≤ info.blockBytes &&
    1 ≤ info.limits.maxTransferBlocks && info.blockBytes ≤ info.limits.maxTransferBytes

namespace DualSlotStore

/-- `DualSlotStore::open`. -/
def «open» (region : BlockRegion) : Prog Device PersistError DualSlotStore := do
  let info := region.info
  .reject (supported info = false) .unsupportedRegion
  let first ← readCandidate region 0 info.blockBytes
  let second ← readCandidate region 1 info.blockBytes
  let active ← .ofExcept (chooseActive first second)
  return { region, blockBytes := info.blockBytes, active }

/-- `DualSlotStore::generation`. -/
def generation (store : DualSlotStore) : ℕ := store.active.elim 0 Candidate.generation

/-- `DualSlotStore::payload`. -/
def payload (store : DualSlotStore) : Option Bytes := store.active.map Candidate.payload

/-- `DualSlotStore::max_payload_bytes`. -/
def maxPayloadBytes (store : DualSlotStore) : ℕ := store.blockBytes - dataHeaderBytes

/-- `DualSlotStore::commit`: the new generation and the store after success. A failed commit leaves
the in-memory store as it was. -/
def commit (store : DualSlotStore) (payload : Bytes) :
    Prog Device PersistError (ℕ × DualSlotStore) := do
  .reject (store.maxPayloadBytes < payload.length) .payloadTooLarge
  let generation ← .ofOption .generationExhausted (checkedAdd 64 store.generation 1)
  tryReserve payload.length .metadataExhausted
  let slot := store.active.elim 0 fun active => active.slot ^^^ 1
  let data ← encodeData store.blockBytes generation payload
  let dataChecksum ← .ofExcept (readU32 data checksumOffset)
  let marker ← encodeCommit store.blockBytes generation dataChecksum
  let dataLba := slot * 2
  (store.region.writeBlocks dataLba 1 data false).mapErr .block
  store.region.flush.mapErr .block
  (store.region.writeBlocks (dataLba + 1) 1 marker false).mapErr .block
  store.region.flush.mapErr .block
  return (generation, { store with active := some { slot, generation, payload } })

end DualSlotStore

end Troe.TxSlot
