import Troe.Storage.FsApi
import Troe.Storage.TxSlotCrash

/-!
# The single-file state filesystem (`troe-fs-statefs`)

One file, `/state.bin`, whose committed contents are the payload of a dual-slot store. Appended
bytes collect in a pending buffer, and `sync_file` commits the buffer. Each operation is a program
that returns its result together with the filesystem afterwards, because the source changes the
pending buffer also where the operation then fails.
-/

namespace Troe.Statefs

open Lib Block TxSlot Fs

/-- Image identifier, `STFSv1` and two zero bytes. -/
def stateFsMagic : Bytes := [0x53, 0x54, 0x46, 0x53, 0x76, 0x31, 0, 0]

/-- The only mutable file. -/
def statePath : Path := "/state.bin".toList

def headerBytes : ℕ := 32
def checksumOffset : ℕ := 20
def present : ℕ := 1

/-- One mounted state filesystem. -/
structure StateFs where
  store : DualSlotStore
  bytes : Option Bytes
  pending : Option Bytes
deriving DecidableEq

/-- `map_persist`. -/
def mapPersist : PersistError → FsError
  | .payloadTooLarge | .metadataExhausted => .noSpace
  | .corrupt => .corrupt
  | .unsupportedRegion | .generationExhausted => .unsupported
  | .block .timeout => .timeout
  | .block _ => .io

/-! ## Images -/

def readU16 (bytes : Bytes) (offset : ℕ) : Except FsError ℕ := okOr (readLe 2 bytes offset) .corrupt

def readU32 (bytes : Bytes) (offset : ℕ) : Except FsError ℕ := okOr (readLe 4 bytes offset) .corrupt

def crc32Zeroed (bytes : Bytes) : ℕ := (Checksum.crc32WithZeroedField bytes checksumOffset).toNat

/-- The length of the file; an absent file has none. -/
def contentLength (content : Option Bytes) : ℕ := content.elim 0 List.length

/-- The image of `encode_image`, up to the checksum. -/
def fillImage (content : Option Bytes) : Bytes :=
  let image := List.replicate (headerBytes + contentLength content) 0
  let image := splice image 0 stateFsMagic
  let image := splice image 8 (leBytes 2 1)
  let image := splice image 12 (leBytes 2 32)
  let image := if content.isSome then splice image 14 (leBytes 2 present) else image
  let image := splice image 16 (leBytes 4 (contentLength content))
  content.elim image (splice image headerBytes)

/-- Store an image's own checksum in it. -/
def sealImage (image : Bytes) : Bytes :=
  splice image checksumOffset (leBytes 4 (crc32Zeroed image))

/-- `encode_image`. -/
def encodeImage (content : Option Bytes) : Prog Device FsError Bytes := do
  let total ← .ofOption .overflow (checkedAdd 64 headerBytes (contentLength content))
  tryReserve total .noSpace
  .reject (2 ^ 32 ≤ contentLength content) .noSpace
  return sealImage (fillImage content)

/-- `parse_image`. -/
def parseImage (image : Bytes) : Except FsError (Option Bytes) := do
  rejectIf (image.length < headerBytes ∨ image.take 8 ≠ stateFsMagic) .corrupt
  rejectIf ((← readU16 image 8) ≠ 1) .corrupt
  rejectIf ((← readU16 image 10) ≠ 0) .corrupt
  rejectIf ((← readU16 image 12) ≠ 32) .corrupt
  rejectIf (((image.take headerBytes).drop 24).any (· ≠ 0)) .corrupt
  rejectIf (crc32Zeroed image ≠ (← readU32 image checksumOffset)) .corrupt
  let flags ← readU16 image 14
  let length ← readU32 image 16
  rejectIf (flags / 2 ≠ 0 ∨ checkedAdd 64 headerBytes length ≠ some image.length ∨
    (flags % 2 = 0 ∧ length ≠ 0)) .corrupt
  return if flags % 2 ≠ 0 then some (image.drop headerBytes) else none

/-! ## Operations -/

namespace StateFs

/-- `StateFs::mount`. -/
def mount (region : BlockRegion) : Prog Device FsError StateFs := do
  let store ← (DualSlotStore.open region).mapErr mapPersist
  let bytes ← .ofExcept (store.payload.elim (.ok none) parseImage)
  return { store, bytes, pending := none }

/-- `StateFs::generation`. -/
def generation (fs : StateFs) : ℕ := fs.store.generation

variable (fs : StateFs) (path : Path)

/-- `StateFs::max_file_bytes`. -/
def maxFileBytes : ℕ := fs.store.maxPayloadBytes - headerBytes

/-- `StateFs::commit`: the filesystem after success. A failed commit leaves it as it was. -/
def commit (fs : StateFs) (content : Option Bytes) : Prog Device FsError StateFs := do
  .reject (content.any (fs.maxFileBytes < ·.length)) .noSpace
  let image ← encodeImage content
  let (_, store) ← (fs.store.commit image).mapErr mapPersist
  return { fs with store, bytes := content }

/-- End an operation: with the filesystem of the program, or with its error and `fs`. -/
def finish (program : Prog Device FsError StateFs) :
    Prog Device Empty (Except FsError Unit × StateFs) := do
  match ← program.attempt with
  | .ok fs' => return (.ok (), fs')
  | .error e => return (.error e, fs)

/-- The failure of a changing operation on another path than the file's. -/
def wrongPath : FsError := if path = ['/'] then .wrongType else .readOnly

/-- `write_file`. The pending buffer is dropped before the commit. -/
def writeFile (bytes : Bytes) : Prog Device Empty (Except FsError Unit × StateFs) :=
  if path ≠ statePath then return (.error (wrongPath path), fs)
  else
    let fs := { fs with pending := none }
    fs.finish (fs.commit (some bytes))

/-- `truncate_file`: the pending buffer becomes empty, and nothing is committed. -/
def truncateFile : Prog Device Empty (Except FsError Unit × StateFs) :=
  if path ≠ statePath then return (.error (wrongPath path), fs)
  else return (.ok (), { fs with pending := some [] })

/-- `append_file`. -/
def appendFile (bytes : Bytes) : Prog Device Empty (Except FsError Unit × StateFs) :=
  if path ≠ statePath then return (.error .readOnly, fs)
  else
    let pending := fs.pending.getD (fs.bytes.getD [])
    let fs := { fs with pending := some pending }
    fs.finish do
      let next ← .ofOption .overflow (checkedAdd 64 pending.length bytes.length)
      .reject (fs.maxFileBytes < next) .noSpace
      tryReserve bytes.length .noSpace
      return { fs with pending := some (pending ++ bytes) }

/-- `sync_file`. The pending buffer is taken out before the commit and is not put back when the
commit fails. -/
def syncFile : Prog Device Empty (Except FsError Unit × StateFs) :=
  if path ≠ statePath then return (.error .readOnly, fs)
  else
    match fs.pending with
    | none => return (.ok (), fs)
    | some pending =>
      let fs := { fs with pending := none }
      fs.finish (fs.commit (some pending))

/-- `remove_file`. -/
def removeFile : Prog Device Empty (Except FsError Unit × StateFs) :=
  if path ≠ statePath then return (.error (wrongPath path), fs)
  else
    let fs := { fs with pending := none }
    if fs.bytes = none then return (.error .notFound, fs)
    else fs.finish (fs.commit none)

end StateFs

/-! ## Encoded images parse back -/

/-- The fields of an image, one after the other. -/
def imageLayout (flags length checksum : ℕ) (body : Bytes) : Bytes :=
  stateFsMagic ++ (leBytes 2 1 ++ (leBytes 2 0 ++ (leBytes 2 32 ++ (leBytes 2 flags ++
    (leBytes 4 length ++ (leBytes 4 checksum ++ (List.replicate 8 0 ++ body)))))))

section

variable {flags length checksum : ℕ} {body : Bytes} {content : Option Bytes}

@[simp] theorem length_stateFsMagic : stateFsMagic.length = 8 := by simp [stateFsMagic]

theorem length_imageLayout : (imageLayout flags length checksum body).length = 32 + body.length := by
  simp only [imageLayout, List.length_append, length_leBytes, length_stateFsMagic,
    List.length_replicate]
  omega

theorem splice_checksum_imageLayout (checksum checksum' : ℕ) :
    splice (imageLayout flags length checksum body) checksumOffset (leBytes 4 checksum')
      = imageLayout flags length checksum' body := by
  rw [checksumOffset]
  simp (disch := simp) only [imageLayout, splice_append_right, splice_append_left,
    length_stateFsMagic, length_leBytes, Nat.reduceSub]

/-- The checksum does not depend on the checksum field. -/
theorem crc32Zeroed_imageLayout (h : 32 + body.length < 2 ^ 64) (checksum checksum' : ℕ) :
    crc32Zeroed (imageLayout flags length checksum' body)
      = crc32Zeroed (imageLayout flags length checksum body) := by
  rw [crc32Zeroed, ← splice_checksum_imageLayout checksum checksum',
    Checksum.crc32WithZeroedField_splice (length_leBytes 4 _)
      (by rw [length_imageLayout, checksumOffset]; omega) (by rw [length_imageLayout]; omega)]
  rfl

/-- The presence flag of an image. -/
def contentFlags (content : Option Bytes) : ℕ := if content.isSome then present else 0

theorem fillImage_eq : fillImage content
    = imageLayout (contentFlags content) (contentLength content) 0 (content.getD []) := by
  have hsizes : [8, 2, 2, 2, 2, 4, 4, 8, contentLength content].sum
      = headerBytes + contentLength content := by
    simp only [List.sum_cons, List.sum_nil, headerBytes]
    omega
  rw [fillImage, ← hsizes, replicate_eq_flatten _ rfl]
  cases content with
  | none =>
    simp (disch := simp) only [List.map_cons, List.map_nil, List.flatten_cons, List.flatten_nil,
      Option.isSome_none, Option.elim_none, Bool.false_eq_true, if_false, splice_append_left,
      splice_append_right, length_stateFsMagic, length_leBytes, List.length_replicate,
      Nat.reduceSub, contentFlags, contentLength, imageLayout]
    rfl
  | some bytes =>
    have hlength : contentLength (some bytes) = bytes.length := rfl
    simp (disch := simp) only [List.map_cons, List.map_nil, List.flatten_cons, hlength,
      List.flatten_nil, Option.isSome_some, Option.elim_some, if_true, splice_append_left,
      splice_append_right, length_stateFsMagic, length_leBytes, List.length_replicate,
      Nat.reduceSub, contentFlags, imageLayout, headerBytes, Option.getD_some]
    rw [List.append_nil]
    rfl

/-- The fields as the parser reads them. -/
theorem imageLayout_reads (hflags : flags < 2 ^ 16) (hlength : length < 2 ^ 32)
    (hchecksum : checksum < 2 ^ 32) (body : Bytes) :
    let image := imageLayout flags length checksum body
    readU16 image 8 = .ok 1 ∧ readU16 image 10 = .ok 0 ∧ readU16 image 12 = .ok 32 ∧
      readU16 image 14 = .ok flags ∧ readU32 image 16 = .ok length ∧
      readU32 image checksumOffset = .ok checksum := by
  refine ⟨?_, ?_, ?_, ?_, ?_, ?_⟩
  all_goals
    simp (disch := first | omega | simp) only [readU16, readU32, checksumOffset, imageLayout,
      readLe_append_right, readLe_append_left, length_stateFsMagic, length_leBytes, Nat.reduceSub]
    rfl

theorem drop_imageLayout : (imageLayout flags length checksum body).drop headerBytes = body := by
  rw [headerBytes]
  simp (disch := simp) only [imageLayout, drop_append_right, length_stateFsMagic, length_leBytes,
    List.length_replicate, Nat.reduceSub, List.drop_zero]

/-- The reserved bytes of an image are zero. -/
theorem reserved_imageLayout :
    (((imageLayout flags length checksum body).take headerBytes).drop 24).any (· ≠ 0) = false := by
  have hreserved : ((imageLayout flags length checksum body).take headerBytes).drop 24
      = List.replicate 8 0 := by
    rw [headerBytes, List.drop_take]
    simp (disch := simp) only [imageLayout, drop_append_right, length_stateFsMagic, length_leBytes,
      Nat.reduceSub, List.drop_zero]
    exact List.take_left' (List.length_replicate ..)
  rw [hreserved]
  rfl

theorem length_getD (content : Option Bytes) :
    (content.getD []).length = contentLength content := by
  cases content <;> rfl

theorem length_sealImage (content : Option Bytes) :
    (sealImage (fillImage content)).length = headerBytes + contentLength content := by
  rw [sealImage, fillImage_eq, splice_checksum_imageLayout, length_imageLayout, length_getD,
    headerBytes]

/-- What `encode_image` writes parses back to the file it was given. -/
theorem parseImage_sealImage (h : contentLength content < 2 ^ 32) :
    parseImage (sealImage (fillImage content)) = .ok content := by
  have hbody := length_getD content
  have hflags : contentFlags content < 2 ^ 16 := by
    unfold contentFlags present
    split <;> omega
  set body := content.getD [] with hgetD
  set checksum := crc32Zeroed (fillImage content) with hchecksum
  have himage : sealImage (fillImage content)
      = imageLayout (contentFlags content) (contentLength content) checksum body := by
    rw [sealImage, ← hchecksum, fillImage_eq, splice_checksum_imageLayout]
  have hcrc : crc32Zeroed (imageLayout (contentFlags content) (contentLength content) checksum body)
      = checksum := by
    rw [crc32Zeroed_imageLayout (by omega) 0 checksum, hchecksum, fillImage_eq]
  have hlt : checksum < 2 ^ 32 := BitVec.isLt _
  obtain ⟨h8, h10, h12, h14, h16, h20⟩ := imageLayout_reads hflags h hlt body
  have hlength : checkedAdd 64 headerBytes (contentLength content) = some
      (imageLayout (contentFlags content) (contentLength content) checksum body).length := by
    rw [length_imageLayout, hbody]
    exact checkedAdd_eq_some.mpr ⟨by rw [headerBytes]; omega, rfl⟩
  rw [himage]
  simp only [parseImage, ok_rules]
  refine ⟨(), ?_, 1, h8, (), by simp, 0, h10, (), by simp, 32, h12, (), by simp, (), ?_, _, h20, (),
    not_not.mpr hcrc, _, h14, _, h16, (), ?_, ?_⟩
  · rw [length_imageLayout, headerBytes]
    exact not_or.mpr ⟨by omega, not_not.mpr rfl⟩
  · rw [reserved_imageLayout]
    exact Bool.false_ne_true
  · rw [hlength]
    cases content <;> simp [contentFlags, present, contentLength]
  · rw [drop_imageLayout]
    cases content <;> rfl

end

end Troe.Statefs
