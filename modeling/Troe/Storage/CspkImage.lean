import Mathlib.Data.List.Chain
import Troe.Storage.Cspk
import Mathlib.Data.List.GetD

/-!
# The canonical image of a content pack

The objects of an accepted pack are verified: they stand in the order of their digests, their bytes
have these digests, and manifests among them are well formed. Conversely verified objects have one
image, with the records and the objects without gaps, and a pack with this image is accepted and
holds them.
-/

namespace Troe.Cspk

open Lib Checksum
open List (append_assoc drop_drop drop_left' drop_zero length_cons length_singleton pairwise_map
  take_left')

variable {bytes image tail tail' : Bytes} {start length index offset : ℕ} {pack : ContentPack}
  {objects : List ContentObject} {parsed : List Record}

/-! ## The order of digests -/

namespace ContentDigest

variable {a b c : ContentDigest}

theorem ext_bytes (h : a.bytes = b.bytes) : a = b := by
  cases a
  cases b
  cases h
  rfl

theorem cmp_eq_eq : a.cmp b = .eq ↔ a = b := by
  constructor
  · intro h
    exact ext_bytes (Std.LawfulEqOrd.eq_of_compare h)
  · rintro rfl
    exact Std.ReflOrd.compare_self

instance : Std.TransCmp ContentDigest.cmp :=
  inferInstanceAs (Std.TransCmp (compareOn ContentDigest.bytes))

theorem cmp_lt_trans (hab : a.cmp b = .lt) (hbc : b.cmp c = .lt) : a.cmp c = .lt :=
  Std.TransCmp.lt_trans hab hbc

theorem cmp_lt_of_lt_of_ne_gt (hab : a.cmp b = .lt) (hbc : b.cmp c ≠ .gt) : a.cmp c = .lt :=
  Std.TransCmp.lt_of_lt_of_isLE hab (Ordering.isLE_iff_ne_gt.mpr hbc)

end ContentDigest

namespace ContentPack

instance : IsTrans ContentDigest NotAbove where
  trans a b c hab hbc := by
    have hle : (a.cmp c).isLE :=
      Std.TransCmp.isLE_trans (Ordering.isLE_iff_ne_gt.mpr hab) (Ordering.isLE_iff_ne_gt.mpr hbc)
    exact Ordering.isLE_iff_ne_gt.mp hle

instance : Std.Total NotAbove where
  total a b := by
    by_cases h : a.cmp b = .gt
    · right
      have hlt : b.cmp a = .lt := Std.OrientedCmp.lt_of_gt h
      simp [NotAbove, hlt]
    · exact .inl h

end ContentPack

/-! ## Verified objects -/

/-- What `parse` checks of one object. -/
structure ContentObject.Verified (object : ContentObject) : Prop where
  digest : ContentDigest.of object.bytes = object.digest
  pos : 0 < object.bytes.length
  le : object.bytes.length ≤ maxObjectBytes
  manifest : checkManifest object.kind object.bytes = .ok ()

/-- What `parse` checks of the objects of a pack. -/
structure Verified (objects : List ContentObject) : Prop where
  each : ∀ object ∈ objects, object.Verified
  sorted : objects.Pairwise fun a b => a.digest.cmp b.digest = .lt

theorem length_span (h : start + length ≤ bytes.length) :
    (span bytes start (start + length)).length = length := by
  simp only [span, List.length_take, List.length_drop]
  omega

/-- The object of a record in an image. -/
def objectOf (image : Bytes) (record : Record) : ContentObject :=
  ⟨record.digest, record.kind, span image record.offset (record.offset + record.length)⟩

theorem ContentPack.objects_eq (pack : ContentPack) :
    pack.objects = pack.records.map (objectOf pack.image) := rfl

/-- A turn of the loop adds the record of a verified object above the last one. -/
theorem recordStep_ok {parsed parsed' : List Record × ℕ}
    (h : recordStep image parsed index = .ok parsed') :
    ∃ record, parsed'.1 = parsed.1 ++ [record] ∧ (objectOf image record).Verified ∧
      ∀ prior ∈ parsed.1.getLast?, prior.digest.cmp record.digest = .lt := by
  simp only [recordStep, ok_rules, mapError_eq_ok, not_or, Decidable.not_not, Except.ok.injEq] at h
  obtain ⟨⟨⟩, -, digest, -, kind, -, offset, -, length, -, stop, ⟨-, rfl⟩, ⟨⟩,
    ⟨hpos, hle, -, hstop, hlast, hdigest⟩, ⟨⟩, hmanifest, rfl⟩ := h
  have hlength : (span image offset (offset + length)).length = length :=
    length_span (Nat.le_of_not_lt hstop)
  refine ⟨⟨digest, kind, offset, length⟩, rfl, ⟨hdigest, ?_, ?_, hmanifest⟩, ?_⟩
  · exact hlength.symm ▸ Nat.pos_of_ne_zero hpos
  · exact hlength.symm ▸ Nat.le_of_not_lt hle
  · intro prior hprior
    rw [Option.mem_def] at hprior
    simp only [hprior, Option.any_some, Bool.not_eq_true] at hlast
    cases hcmp : prior.digest.cmp digest with
    | lt => rfl
    | eq => simp [hcmp] at hlast
    | gt => simp [hcmp] at hlast

/-- The objects of an accepted pack are verified. -/
theorem verified_of_parse {granted : Bool}
    (h : ContentPack.parse granted image = .ok pack) : Verified pack.objects := by
  simp only [ContentPack.parse, ok_rules, Except.ok.injEq] at h
  obtain ⟨_, _, _, _, _, _, _, _, _, _, _, _, _, _, count, _, _, _, _, _, _, _, _, _, _, _, _, _,
    ⟨records, expectedOffset⟩, hloop, _, _, rfl⟩ := h
  have hinv := foldlM_range_ok_induction
    (P := fun _ parsed => (∀ record ∈ parsed.1, (objectOf image record).Verified) ∧
      parsed.1.IsChain fun a b => a.digest.cmp b.digest = .lt) hloop (by simp) ?_
  · obtain ⟨heach, hchain⟩ := hinv
    have : IsTrans Record fun a b => a.digest.cmp b.digest = .lt :=
      ⟨fun _ _ _ => ContentDigest.cmp_lt_trans⟩
    have hsorted := List.isChain_iff_pairwise.mp hchain
    constructor
    · simpa [ContentPack.objects_eq] using heach
    · rw [ContentPack.objects_eq, pairwise_map]
      exact hsorted
  · intro i parsed parsed' _ hparsed hstep
    obtain ⟨heach, hchain⟩ := hparsed
    obtain ⟨record, hrecords, hrecord, hlast⟩ := recordStep_ok hstep
    rw [hrecords]
    constructor
    · intro r hr
      rcases List.mem_append.mp hr with hr | hr
      · exact heach r hr
      · rw [List.mem_singleton.mp hr]
        exact hrecord
    · refine List.isChain_append.mpr ⟨hchain, List.isChain_singleton _, ?_⟩
      intro prior hprior next hnext
      cases hnext
      exact hlast prior hprior

/-- The lookup of an accepted pack finds the object with the digest. -/
theorem get_eq_find (h : Verified pack.objects) (digest : ContentDigest) :
    pack.get digest = pack.objects.find? fun object => object.digest = digest := by
  have hsorted : Ascending pack.records fun record => record.digest.cmp digest := by
    have hpairwise := h.sorted
    rw [ContentPack.objects_eq, pairwise_map] at hpairwise
    refine hpairwise.imp fun hlt hle => ?_
    exact ContentDigest.cmp_lt_of_lt_of_ne_gt hlt hle
  have hget : pack.get digest = ((binarySearchBy pack.records fun record =>
      record.digest.cmp digest).map pack.records.get).map pack.object := by
    unfold ContentPack.get
    cases binarySearchBy pack.records fun record => record.digest.cmp digest <;> rfl
  rw [hget, map_get_binarySearchBy hsorted, ContentPack.objects, List.find?_map]
  congr 2
  funext record
  simp only [ContentDigest.cmp_eq_eq, Function.comp_apply]
  rfl

/-! ## The image of verified objects -/

/-- The record of an object whose bytes start at `offset`. -/
def encodeRecord (offset : ℕ) (object : ContentObject) : Bytes :=
  object.digest.bytes ++ ([object.kind.byte] ++ (List.replicate 7 0 ++ (leBytes 4 offset ++
    (leBytes 4 object.bytes.length ++ List.replicate 16 0))))

/-- The records of objects whose bytes follow one another from `offset` on. -/
def encodeTable : ℕ → List ContentObject → Bytes
  | _, [] => []
  | offset, object :: objects =>
    encodeRecord offset object ++ encodeTable (offset + object.bytes.length) objects

def payload (objects : List ContentObject) : Bytes := objects.flatMap ContentObject.bytes

/-- The header without reserved bytes. -/
def encodeHeader (count total checksum : ℕ) : Bytes :=
  contentPackMagic ++ (leBytes 2 1 ++ (leBytes 2 0 ++ (leBytes 2 64 ++ (leBytes 2 64 ++
    (leBytes 4 total ++ (leBytes 4 checksum ++ (leBytes 2 count ++ List.replicate 38 0)))))))

/-- Where the records of `count` objects end. -/
def tableEnd (count : ℕ) : ℕ := headerBytes + count * recordBytes

def packSize (objects : List ContentObject) : ℕ :=
  tableEnd objects.length + (payload objects).length

/-- The image with a checksum field. -/
def imageWith (objects : List ContentObject) (checksum : ℕ) : Bytes :=
  encodeHeader objects.length (packSize objects) checksum ++
    (encodeTable (tableEnd objects.length) objects ++ payload objects)

/-- The canonical image. -/
def encodePack (objects : List ContentObject) : Bytes :=
  imageWith objects (crc32WithZeroedField (imageWith objects 0) checksumOffset).toNat

@[simp] theorem length_encodeRecord (offset : ℕ) (object : ContentObject) :
    (encodeRecord offset object).length = recordBytes := by
  simp [encodeRecord, object.digest.length_eq, recordBytes]

@[simp] theorem length_encodeTable (offset : ℕ) (objects : List ContentObject) :
    (encodeTable offset objects).length = objects.length * recordBytes := by
  induction objects generalizing offset with
  | nil => simp [encodeTable]
  | cons object objects ih =>
    rw [encodeTable, List.length_append, length_encodeRecord, ih, length_cons]
    ring

@[simp] theorem length_encodeHeader (count total checksum : ℕ) :
    (encodeHeader count total checksum).length = headerBytes := by
  simp [encodeHeader, contentPackMagic, headerBytes]

@[simp] theorem length_imageWith (objects : List ContentObject) (checksum : ℕ) :
    (imageWith objects checksum).length = packSize objects := by
  simp [imageWith, packSize, tableEnd, Nat.add_assoc]

/-- The checksum is written over a zeroed field. -/
theorem splice_imageWith (objects : List ContentObject) (checksum : ℕ) :
    splice (imageWith objects 0) checksumOffset (leBytes 4 checksum) =
      imageWith objects checksum := by
  simp (disch := simp [contentPackMagic, checksumOffset]) only [imageWith, encodeHeader,
    append_assoc, splice_append_left, splice_append_right, length_leBytes, contentPackMagic,
    checksumOffset, length_cons, List.length_nil, Nat.reduceSub, Nat.reduceAdd]

/-- The checksum does not depend on the checksum field. -/
theorem crc_imageWith (hsize : packSize objects ≤ maxPackBytes) (checksum : ℕ) :
    crc32WithZeroedField (imageWith objects checksum) checksumOffset =
      crc32WithZeroedField (imageWith objects 0) checksumOffset := by
  rw [← splice_imageWith]
  apply crc32WithZeroedField_splice (length_leBytes 4 checksum)
  · rw [length_imageWith, packSize, tableEnd, headerBytes, checksumOffset]
    omega
  · rw [length_imageWith]
    exact Nat.lt_of_le_of_lt hsize (by decide)

/-! ## The image is accepted -/

theorem ObjectKind.parse_byte (kind : ObjectKind) : ObjectKind.parse kind.byte = .ok kind := by
  cases kind <;> rfl

theorem anyNonzero_replicate (n : ℕ) : anyNonzero (List.replicate n 0) = false := by
  simp [anyNonzero]

theorem copyDigest_eq_ok {digest : ContentDigest}
    (h : slice bytes offset 32 = some digest.bytes) : copyDigest bytes offset = .ok digest := by
  unfold copyDigest
  split
  next hnone => cases h.symm.trans hnone
  next field hfield =>
    cases h.symm.trans hfield
    rfl

section Fields

variable (offset : ℕ) (object : ContentObject)

theorem digest_encodeRecord : copyDigest (encodeRecord offset object) 0 = .ok object.digest :=
  copyDigest_eq_ok (slice_append_left object.digest.length_eq _)

theorem kind_encodeRecord : (encodeRecord offset object).getD 32 0 = object.kind.byte := by
  rw [encodeRecord, List.getD_append_right _ _ _ _ object.digest.length_eq.le,
    object.digest.length_eq]
  rfl

theorem reserved_encodeRecord : span (encodeRecord offset object) 33 40 = List.replicate 7 0 := by
  simp (disch := simp [object.digest.length_eq]) only [span, encodeRecord, drop_append_right,
    object.digest.length_eq, length_singleton, Nat.reduceSub, drop_zero]
  exact take_left' (by simp)

theorem reserved_encodeRecord_end : (encodeRecord offset object).drop 48 = List.replicate 16 0 := by
  simp (disch := simp [object.digest.length_eq]) only [encodeRecord, drop_append_right,
    object.digest.length_eq, length_singleton, List.length_replicate, length_leBytes,
    Nat.reduceSub, drop_zero]

variable {offset object}

/-- The two numbers of a record. -/
theorem encodeRecord_reads (hoffset : offset < 2 ^ 32) (hlength : object.bytes.length < 2 ^ 32) :
    readLe 4 (encodeRecord offset object) 40 = some offset ∧
      readLe 4 (encodeRecord offset object) 44 = some object.bytes.length := by
  simp (disch := first | omega | simp [object.digest.length_eq]) only [encodeRecord,
    readLe_append_right, readLe_append_left, object.digest.length_eq, length_singleton,
    List.length_replicate, length_leBytes, Nat.reduceSub, and_self]

end Fields

theorem span_of_drop {field : Bytes}
    (h : bytes.drop start = field ++ tail) (hlength : field.length = length) :
    span bytes start (start + length) = field := by
  rw [span, h, Nat.add_sub_cancel_left, take_left' hlength]

/-- The record of a verified object above the last one passes. -/
theorem recordStep_encodeRecord {object : ContentObject} (hobject : object.Verified)
    (hrecord : image.drop (headerBytes + index * recordBytes) = encodeRecord offset object ++ tail)
    (hbytes : image.drop offset = object.bytes ++ tail') (hsize : image.length ≤ maxPackBytes)
    (hlast : ∀ prior ∈ parsed.getLast?, prior.digest.cmp object.digest = .lt) :
    recordStep image (parsed, offset) index =
      .ok (parsed ++ [⟨object.digest, object.kind, offset, object.bytes.length⟩],
        offset + object.bytes.length) := by
  have hraw := span_of_drop hrecord (length_encodeRecord offset object)
  have hspan := span_of_drop hbytes rfl
  have hstop : offset + object.bytes.length ≤ image.length := by
    have hlength := congrArg List.length hbytes
    have hpos := hobject.pos
    rw [List.length_drop, List.length_append] at hlength
    omega
  have hbound : maxPackBytes < 2 ^ 32 := by decide
  have hgreater : parsed.getLast?.any (fun prior => (prior.digest.cmp object.digest).isGE) =
      false := by
    cases hprior : parsed.getLast? with
    | none => rfl
    | some prior => simp [hlast prior hprior]
  have hreads : readLe 4 (encodeRecord offset object) 40 = some offset ∧
      readLe 4 (encodeRecord offset object) 44 = some object.bytes.length :=
    encodeRecord_reads (by omega) (by omega)
  simp only [recordStep, ok_rules, mapError_eq_ok, readU32, hraw]
  refine ⟨(), ?_, _, digest_encodeRecord offset object, object.kind, ?_, offset, ?_,
    object.bytes.length, ?_, _, ⟨?_, rfl⟩, (), ?_, (), ?_, rfl⟩
  · simp only [reserved_encodeRecord, reserved_encodeRecord_end, anyNonzero_replicate]
    decide
  · rw [kind_encodeRecord, ObjectKind.parse_byte]
  · exact hreads.1
  · exact hreads.2
  · omega
  · have hpos := hobject.pos
    have hle := hobject.le
    simp only [hgreater, hspan, hobject.digest, not_or]
    refine ⟨by omega, by omega, by simp, by omega, by simp, by simp⟩
  · rw [hspan]
    exact hobject.manifest

/-- The records of objects whose bytes follow one another from `offset` on. -/
def recordsFrom : ℕ → List ContentObject → List Record
  | _, [] => []
  | offset, object :: objects =>
    ⟨object.digest, object.kind, offset, object.bytes.length⟩ ::
      recordsFrom (offset + object.bytes.length) objects

/-- The loop reads the records of the objects that are left. -/
theorem foldlM_recordStep (hsize : image.length ≤ maxPackBytes)
    (heach : ∀ object ∈ objects, object.Verified)
    (hsorted : (parsed.map Record.digest ++ objects.map ContentObject.digest).Pairwise
      fun a b => a.cmp b = .lt)
    (htable : image.drop (headerBytes + index * recordBytes) = encodeTable offset objects ++ tail)
    (hpayload : image.drop offset = payload objects ++ tail') :
    (List.range' index objects.length).foldlM (recordStep image) (parsed, offset) =
      .ok (parsed ++ recordsFrom offset objects, offset + (payload objects).length) := by
  induction objects generalizing parsed offset index with
  | nil => simp [recordsFrom, payload, pure, Except.pure]
  | cons object objects ih =>
    rw [encodeTable, append_assoc] at htable
    rw [payload, List.flatMap_cons, append_assoc] at hpayload
    obtain ⟨hobject, hobjects⟩ := List.forall_mem_cons.mp heach
    have hlast : ∀ prior ∈ parsed.getLast?, prior.digest.cmp object.digest = .lt := by
      intro prior hprior
      exact (List.pairwise_append.mp hsorted).2.2 _
        (List.mem_map_of_mem (List.mem_of_mem_getLast? hprior)) _ (by simp)
    have hstep := recordStep_encodeRecord hobject htable hpayload hsize hlast
    rw [length_cons, List.range'_succ, List.foldlM_cons, hstep]
    refine (ih hobjects ?_ ?_ ?_).trans ?_
    · simpa using hsorted
    · rw [Nat.add_mul, Nat.one_mul, ← Nat.add_assoc, ← drop_drop, htable,
        drop_left' (length_encodeRecord _ _)]
    · rw [← drop_drop, hpayload, List.drop_left]
      rfl
    · simp [recordsFrom, payload, Nat.add_assoc]

/-- The records of a table lead back to the objects. -/
theorem map_objectOf_recordsFrom (hpayload : image.drop offset = payload objects ++ tail) :
    (recordsFrom offset objects).map (objectOf image) = objects := by
  induction objects generalizing offset with
  | nil => rfl
  | cons object objects ih =>
    rw [payload, List.flatMap_cons, append_assoc] at hpayload
    have hrest : image.drop (offset + object.bytes.length) = payload objects ++ tail := by
      rw [← drop_drop, hpayload, List.drop_left]
      rfl
    rw [recordsFrom, List.map_cons, ih hrest, objectOf, span_of_drop hpayload rfl]

/-- What the header of an image holds. -/
theorem header_imageWith (hcount : objects.length ≤ maxObjects)
    (hsize : packSize objects ≤ maxPackBytes) {checksum : ℕ} (hchecksum : checksum < 2 ^ 32) :
    let image := imageWith objects checksum
    image.take 8 = contentPackMagic ∧ readLe 2 image 8 = some 1 ∧ readLe 2 image 10 = some 0 ∧
      readLe 2 image 12 = some 64 ∧ readLe 2 image 14 = some 64 ∧
      readLe 4 image 16 = some (packSize objects) ∧ readLe 4 image checksumOffset = some checksum ∧
      readLe 2 image 24 = some objects.length ∧
      span image 26 headerBytes = List.replicate 38 0 := by
  have hlength : objects.length < 256 ^ 2 := Nat.lt_of_le_of_lt hcount (by decide)
  have htotal : packSize objects < 256 ^ 4 := Nat.lt_of_le_of_lt hsize (by decide)
  have hmagic : contentPackMagic.length = 8 := rfl
  simp (disch := first | omega | simp [contentPackMagic]) only [imageWith, encodeHeader,
    append_assoc, span, headerBytes, checksumOffset, readLe_append_right, readLe_append_left,
    drop_append_right, hmagic, length_leBytes, Nat.reduceSub, drop_zero, true_and]
  exact ⟨rfl, take_left' (by simp)⟩

/-- The pack of verified objects. -/
def packOf (objects : List ContentObject) : ContentPack :=
  ⟨encodePack objects, recordsFrom (tableEnd objects.length) objects⟩

theorem drop_headerBytes_encodePack (objects : List ContentObject) :
    (encodePack objects).drop headerBytes =
      encodeTable (tableEnd objects.length) objects ++ payload objects :=
  drop_left' (length_encodeHeader _ _ _)

theorem drop_tableEnd_encodePack (objects : List ContentObject) :
    (encodePack objects).drop (tableEnd objects.length) = payload objects ++ [] := by
  rw [tableEnd, ← drop_drop, drop_headerBytes_encodePack,
    drop_left' (length_encodeTable _ _), List.append_nil]

theorem objects_packOf (objects : List ContentObject) : (packOf objects).objects = objects :=
  map_objectOf_recordsFrom (drop_tableEnd_encodePack objects)

/-- The image of verified objects is accepted. -/
theorem parse_encodePack (hverified : Verified objects)
    (hne : objects ≠ []) (hcount : objects.length ≤ maxObjects)
    (hsize : packSize objects ≤ maxPackBytes) :
    ContentPack.parse true (encodePack objects) = .ok (packOf objects) := by
  have hcrc := crc_imageWith hsize (crc32WithZeroedField (imageWith objects 0) checksumOffset).toNat
  obtain ⟨hmagic, hmajor, hminor, hheader, hrecord, htotal, hstored, hcountField, hreserved⟩ :=
    header_imageWith hcount hsize (crc32WithZeroedField (imageWith objects 0) checksumOffset).isLt
  rw [← encodePack] at hcrc hmagic hmajor hminor hheader hrecord
  rw [← encodePack] at htotal hstored hcountField hreserved
  have hlength : (encodePack objects).length = packSize objects := length_imageWith _ _
  have hsorted : (([] : List Record).map Record.digest ++
      objects.map ContentObject.digest).Pairwise fun a b => a.cmp b = .lt := by
    simpa [pairwise_map] using hverified.sorted
  have htableDrop : (encodePack objects).drop (headerBytes + 0 * recordBytes) =
      encodeTable (tableEnd objects.length) objects ++ payload objects := by
    simpa using drop_headerBytes_encodePack objects
  have hloop := foldlM_recordStep (hlength.trans_le hsize) hverified.each hsorted htableDrop
    (drop_tableEnd_encodePack objects)
  have htable : tableEnd objects.length ≤ packSize objects := Nat.le_add_right _ _
  have hpos : 0 < objects.length := List.length_pos_of_ne_nil hne
  simp only [ContentPack.parse, ok_rules, readU16, readU32]
  refine ⟨(), ?_, 1, hmajor, 0, hminor, 64, hheader, 64, hrecord, _, htotal, (), ?_, _,
    hcountField, (), ?_, _, ⟨?_, rfl⟩, _, ⟨?_, rfl⟩, _, hstored, (), ?_, (), by simp,
    (recordsFrom (tableEnd objects.length) objects, packSize objects), ?_, (), ?_, rfl⟩
  · rw [hlength, not_or, not_or]
    refine ⟨?_, by omega, not_not_intro hmagic⟩
    rw [packSize, tableEnd]
    omega
  · rw [hlength, hreserved, anyNonzero_replicate]
    simp
  · omega
  · rw [maxObjects] at hcount
    rw [recordBytes]
    omega
  · rw [maxObjects] at hcount
    rw [headerBytes, recordBytes]
    omega
  · rw [hlength]
    exact not_or.mpr ⟨Nat.not_lt.mpr htable, not_not_intro rfl⟩
  · rw [List.range_eq_range', ← tableEnd, hloop, List.nil_append, packSize]
  · rw [hlength]
    exact not_not_intro rfl

end Troe.Cspk
