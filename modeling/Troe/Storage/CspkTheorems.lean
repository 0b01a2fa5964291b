import Troe.Storage.CspkImage

/-!
# Rebuilding a content pack

`retain` collects the listed identities without repetition, sorts them, and writes their records and
objects into a zeroed buffer. What it produces is the canonical image of exactly the listed objects.
-/

namespace Troe.Cspk

open Lib Checksum
open List (append_assoc length_append length_replicate map_cons mem_append mem_cons replicate replicate_add)
open ContentPack (generationRoots parse retain rootsLoop tryU32 typedStep)

/-! ## Lookup -/

/-- No two verified objects have one digest. -/
theorem Verified.eq_of_digest {objects : List ContentObject} (h : Verified objects)
    {a b : ContentObject} (ha : a ∈ objects) (hb : b ∈ objects) (hdigest : a.digest = b.digest) :
    a = b := by
  have hnodup : (objects.map ContentObject.digest).Nodup := by
    rw [List.Nodup, List.pairwise_map]
    refine h.sorted.imp fun hlt heq => ?_
    cases hlt.symm.trans (ContentDigest.cmp_eq_eq.mpr heq)
  exact List.inj_on_of_nodup_map hnodup ha hb hdigest

/-- The lookup of an accepted pack, as membership. -/
theorem get_eq_some {pack : ContentPack} (h : Verified pack.objects) {digest : ContentDigest}
    {object : ContentObject} :
    pack.get digest = some object ↔ object ∈ pack.objects ∧ object.digest = digest := by
  rw [get_eq_find h]
  constructor
  · intro hfind
    exact ⟨List.mem_of_find?_eq_some hfind, by simpa using List.find?_some hfind⟩
  · rintro ⟨hmem, rfl⟩
    cases hfind : pack.objects.find? fun other => other.digest = object.digest with
    | none => exact absurd (List.find?_eq_none.mp hfind object hmem) (by simp)
    | some other =>
      have hother : other.digest = object.digest := by simpa using List.find?_some hfind
      rw [h.eq_of_digest (List.mem_of_find?_eq_some hfind) hmem hother]

/-! ## Rebuilding yields the canonical image -/

section Retain

variable {pack : ContentPack} {object : ContentObject} {front : Bytes} {index offset maxObjects : ℕ}
  {digests roots : List ContentDigest} {objects : List ContentObject}

/-- The objects that the digests of a list stand for. -/
def Resolved (pack : ContentPack) (digests : List ContentDigest) (objects : List ContentObject) :
    Prop :=
  List.Forall₂ (fun digest object => pack.get digest = some object) digests objects

/-- A record and an object are written over their zeroed places. -/
theorem writeStep_zeros {digest : ContentDigest}
    (hget : pack.get digest = some object) (hdigest : object.digest = digest)
    {gap : Bytes}
    (hfront : front.length = headerBytes + index * recordBytes)
    (hoffset : offset = front.length + (recordBytes + gap.length))
    (hbound : offset + object.bytes.length < 2 ^ 32) (rest : Bytes) :
    pack.writeStep (front ++ (replicate recordBytes 0 ++ (gap ++
        (replicate object.bytes.length 0 ++ rest))), offset) (digest, index) =
      .ok (front ++ (encodeRecord offset object ++ (gap ++ (object.bytes ++ rest))),
        offset + object.bytes.length) := by
  subst hdigest
  have hdigestLength := object.digest.length_eq
  have hzeros : replicate recordBytes (0 : UInt8) = replicate 32 0 ++
      (replicate 1 0 ++ (replicate 7 0 ++ (replicate 4 0 ++
        (replicate 4 0 ++ replicate 16 0)))) := rfl
  simp only [ContentPack.writeStep, ok_rules]
  refine ⟨object, hget, offset, if_pos (by omega), object.bytes.length, if_pos (by omega), ?_⟩
  rw [← hfront, hzeros]
  simp (disch := simp [hdigestLength]) only [append_assoc, splice_append_right, Nat.sub_self,
    Nat.add_sub_cancel_left, splice_append_left, hdigestLength, List.length_singleton,
    length_replicate, length_leBytes, Nat.reduceSub]
  -- The object itself comes after the records that are still zero.
  rw [splice_of_eq_append (front ++ (encodeRecord offset object ++ gap))
    (replicate object.bytes.length 0) rest]
  · simp [encodeRecord]
  · simp [encodeRecord]
  · simp only [length_append, length_encodeRecord]
    exact hoffset.symm
  · exact length_replicate

/-- The loop writes the records and the objects that are left. -/
theorem foldlM_writeStep (hresolved : Resolved pack digests objects)
    (hdigests : ∀ digest object, pack.get digest = some object → object.digest = digest)
    {written : Bytes}
    (hfront : front.length = headerBytes + index * recordBytes)
    (hoffset : offset = front.length + (digests.length * recordBytes + written.length))
    (hbound : offset + (payload objects).length < 2 ^ 32) :
    (digests.zipIdx index).foldlM pack.writeStep
        (front ++ (replicate (digests.length * recordBytes) 0 ++
          (written ++ replicate (payload objects).length 0)), offset) =
      .ok (front ++ (encodeTable offset objects ++ (written ++ payload objects)),
        offset + (payload objects).length) := by
  induction hresolved generalizing front written index offset with
  | nil => simp [encodeTable, payload, pure, Except.pure]
  | @cons digest object digests objects hget hresolved ih =>
    have hpayload : payload (object :: objects) = object.bytes ++ payload objects := by
      simp [payload]
    have hrecords : (digest :: digests).length * recordBytes =
        recordBytes + digests.length * recordBytes := by
      rw [List.length_cons]
      ring
    rw [hpayload, length_append] at hbound
    have hgap : offset = front.length + (recordBytes +
        (replicate (digests.length * recordBytes) (0 : UInt8) ++ written).length) := by
      rw [length_append, length_replicate]
      omega
    have hnext : (front ++ encodeRecord offset object).length =
        headerBytes + (index + 1) * recordBytes := by
      rw [length_append, length_encodeRecord, hfront]
      ring
    have hlater : offset + object.bytes.length =
        (front ++ encodeRecord offset object).length +
          (digests.length * recordBytes + (written ++ object.bytes).length) := by
      rw [length_append, length_append, length_encodeRecord]
      omega
    have hstep := writeStep_zeros hget (hdigests digest object hget) hfront hgap (by omega)
      (replicate (payload objects).length 0)
    have hrest := ih hnext hlater (by omega)
    simp only [append_assoc] at hstep hrest
    rw [List.zipIdx_cons, List.foldlM_cons, hrecords, hpayload, length_append,
      replicate_add, replicate_add]
    simp only [append_assoc]
    rw [hstep, encodeTable]
    simp only [append_assoc, ← Nat.add_assoc]
    exact hrest

/-- The collected identities are the listed ones, without repetition. -/
theorem foldlM_identityStep {identities : List ContentDigest}
    (h : roots.foldlM (pack.identityStep maxObjects) [] = .ok identities) :
    identities.Nodup ∧ identities.length ≤ maxObjects ∧
      (∀ digest, digest ∈ identities ↔ digest ∈ roots) ∧
      ∀ digest ∈ roots, ∃ object, pack.get digest = some object := by
  refine foldlM_ok_induction
    (P := fun roots identities => identities.Nodup ∧ identities.length ≤ maxObjects ∧
      (∀ digest, digest ∈ identities ↔ digest ∈ roots) ∧
      ∀ digest ∈ roots, ∃ object, pack.get digest = some object) h (by simp) ?_
  rintro done digest identities identities' ⟨hnodup, hlength, hmem, hresolved⟩ hstep
  simp only [ContentPack.identityStep, ok_rules] at hstep
  obtain ⟨⟨⟩, hget, hstep⟩ := hstep
  have hresolved' : ∀ other ∈ done ++ [digest], ∃ object, pack.get other = some object := by
    intro other hother
    rcases mem_append.mp hother with hother | hother
    · exact hresolved other hother
    · rw [List.mem_singleton.mp hother]
      exact Option.ne_none_iff_exists'.mp hget
  by_cases hseen : digest ∈ identities
  · rw [if_pos hseen] at hstep
    cases hstep
    refine ⟨hnodup, hlength, fun other => ?_, hresolved'⟩
    rw [hmem, mem_append, List.mem_singleton, iff_self_or]
    rintro rfl
    exact (hmem other).mp hseen
  · rw [if_neg hseen] at hstep
    simp only [ok_rules, Except.ok.injEq] at hstep
    obtain ⟨⟨⟩, hroom, rfl⟩ := hstep
    refine ⟨?_, ?_, fun other => ?_, hresolved'⟩
    · exact hnodup.append (List.nodup_singleton digest) (by simpa using hseen)
    · rw [length_append, List.length_singleton]
      omega
    · rw [mem_append, hmem, mem_append]

theorem exists_resolved (h : ∀ digest ∈ digests, ∃ object, pack.get digest = some object) :
    ∃ objects, Resolved pack digests objects := by
  induction digests with
  | nil => exact ⟨[], .nil⟩
  | cons digest digests ih =>
    obtain ⟨⟨object, hobject⟩, hrest⟩ := List.forall_mem_cons.mp h
    obtain ⟨objects, hobjects⟩ := ih hrest
    exact ⟨object :: objects, .cons hobject hobjects⟩

/-- The object sizes add up to the size of the payload. -/
theorem foldlM_totalStep (hresolved : Resolved pack digests objects) {start total : ℕ}
    (h : digests.foldlM pack.totalStep start = .ok total) :
    total = start + (payload objects).length := by
  induction hresolved generalizing start with
  | nil =>
    cases h
    simp [payload]
  | @cons digest object digests objects hget hresolved ih =>
    rw [List.foldlM_cons, bind_eq_ok] at h
    obtain ⟨next, hstep, h⟩ := h
    simp only [ContentPack.totalStep, ok_rules, hget, Option.some.injEq] at hstep
    obtain ⟨_, rfl, -, rfl⟩ := hstep
    rw [ih h]
    simp [payload, Nat.add_assoc]

theorem Resolved.length_eq (h : Resolved pack digests objects) : digests.length = objects.length :=
  List.Forall₂.length_eq h

/-- The digests of resolved objects are the digests they were looked up by. -/
theorem Resolved.map_digest (hpack : Verified pack.objects) (h : Resolved pack digests objects) :
    objects.map ContentObject.digest = digests := by
  induction h with
  | nil => rfl
  | cons hget _ ih => rw [map_cons, ih, ((get_eq_some hpack).mp hget).2]

theorem Resolved.mem_iff (hpack : Verified pack.objects) (h : Resolved pack digests objects) :
    object ∈ objects ↔ object ∈ pack.objects ∧ object.digest ∈ digests := by
  induction h with
  | nil => simp
  | @cons digest other digests objects hget _ ih =>
    obtain ⟨hother, rfl⟩ := (get_eq_some hpack).mp hget
    rw [mem_cons, ih, mem_cons, and_or_left]
    refine or_congr_left ⟨?_, ?_⟩
    · rintro rfl
      exact ⟨hother, rfl⟩
    · rintro ⟨hobject, hdigest⟩
      exact hpack.eq_of_digest hobject hother hdigest

/-- Sorted identities without repetition ascend. -/
theorem pairwise_insertionSort_lt (h : digests.Nodup) :
    (digests.insertionSort ContentPack.NotAbove).Pairwise fun a b => a.cmp b = .lt := by
  have hnodup : (digests.insertionSort ContentPack.NotAbove).Nodup :=
    (List.perm_insertionSort _ _).nodup_iff.mpr h
  refine (List.pairwise_insertionSort ContentPack.NotAbove digests).imp₂ ?_ hnodup
  intro a b hle hne
  cases hcmp : a.cmp b with
  | lt => rfl
  | eq => exact absurd (ContentDigest.cmp_eq_eq.mp hcmp) hne
  | gt => exact absurd hcmp hle

/-- The zeroed output with the header fields written. -/
theorem splices_header (count total rest : ℕ) :
    splice (splice (splice (splice (splice (splice (replicate (headerBytes + rest) 0) 0
      contentPackMagic) 8 (leBytes 2 1)) 12 (leBytes 2 64)) 14 (leBytes 2 64)) 16
      (leBytes 4 total)) 24 (leBytes 2 count) =
      encodeHeader count total 0 ++ replicate rest 0 := by
  have hmagic : contentPackMagic.length = 8 := rfl
  rw [replicate_eq_flatten [8, 2, 2, 2, 2, 4, 4, 2, 38, rest] (by simp [headerBytes]; omega)]
  simp (disch := simp [contentPackMagic]) only [map_cons, List.map_nil, List.flatten_cons,
    List.flatten_nil, List.append_nil, append_assoc, splice_append_left, splice_append_right,
    length_replicate, length_leBytes, hmagic, Nat.reduceSub, encodeHeader]
  rfl

/-- `retain` writes the canonical image of the listed objects. -/
theorem retain_eq_encodePack (hpack : Verified pack.objects)
    {identitiesGranted outputGranted : Bool} {maxBytes : ℕ}
    {output : Bytes}
    (h : pack.retain identitiesGranted outputGranted roots maxObjects maxBytes = .ok output) :
    ∃ objects, output = encodePack objects ∧ Verified objects ∧ objects ≠ [] ∧
      objects.length ≤ Cspk.maxObjects ∧ packSize objects ≤ maxPackBytes ∧
      (∀ object, object ∈ objects ↔ object ∈ pack.objects ∧ object.digest ∈ roots) ∧
      ∀ digest ∈ roots, ∃ object ∈ pack.objects, object.digest = digest := by
  simp only [retain, ok_rules, not_or, Except.ok.injEq] at h
  obtain ⟨⟨⟩, ⟨hroots, -, hmaxObjects, -, hmaxBytes⟩, ⟨⟩, -, identities, hidentities, _, ⟨-, rfl⟩,
    _, ⟨-, rfl⟩, total, htotal, ⟨⟩, htotalLe, ⟨⟩, -, size, hsize, ⟨⟩, -, ⟨image, last⟩, hwrite,
    rfl⟩ := h
  obtain ⟨hnodup, hcount, hmem, hresolved⟩ := foldlM_identityStep hidentities
  have hsorted := pairwise_insertionSort_lt hnodup
  have hlisted : ∀ digest, digest ∈ identities.insertionSort ContentPack.NotAbove ↔
      digest ∈ roots := fun digest => (List.mem_insertionSort _).trans (hmem digest)
  have hlength := List.length_insertionSort ContentPack.NotAbove identities
  generalize identities.insertionSort ContentPack.NotAbove = digests at *
  obtain ⟨objects, hobjects⟩ : ∃ objects, Resolved pack digests objects :=
    exists_resolved fun digest hdigest => hresolved digest ((hlisted digest).mp hdigest)
  have htotal := foldlM_totalStep hobjects htotal
  have hpackSize : total = packSize objects := by
    rw [htotal, packSize, tableEnd, hobjects.length_eq]
  have hbound : total < 2 ^ 32 := by
    have : maxPackBytes < 2 ^ 32 := by decide
    omega
  obtain rfl : total = size := by
    rw [tryU32, if_pos hbound] at hsize
    exact Option.some.inj hsize
  -- The loop starts from the header and zeros, and ends with the image without checksum.
  rw [htotal, Nat.add_assoc, splices_header, ← Nat.add_assoc, ← htotal, replicate_add] at hwrite
  have hfront : (encodeHeader digests.length total 0).length = headerBytes + 0 * recordBytes := by
    simp
  have hoffset : headerBytes + digests.length * recordBytes =
      (encodeHeader digests.length total 0).length +
        (digests.length * recordBytes + ([] : Bytes).length) := by
    simp
  have hloop := foldlM_writeStep hobjects
    (fun digest object hget => ((get_eq_some hpack).mp hget).2) hfront hoffset (by rwa [← htotal])
  rw [List.nil_append, List.nil_append, hwrite, Except.ok.injEq, Prod.mk.injEq] at hloop
  have himage : image = imageWith objects 0 := by
    rw [hloop.1, imageWith, ← hpackSize, ← hobjects.length_eq, tableEnd]
  refine ⟨objects, ?_, ⟨?_, ?_⟩, ?_, ?_, ?_, ?_, ?_⟩
  · rw [himage, splice_imageWith, encodePack]
  · intro object hobject
    exact hpack.each object ((hobjects.mem_iff hpack).mp hobject).1
  · rwa [← hobjects.map_digest hpack, List.pairwise_map] at hsorted
  · rintro rfl
    obtain ⟨digest, hdigest⟩ := List.exists_mem_of_ne_nil roots hroots
    have hnone := (hlisted digest).mpr hdigest
    cases hobjects
    cases hnone
  · rw [← hobjects.length_eq]
    omega
  · omega
  · intro object
    rw [hobjects.mem_iff hpack, hlisted]
  · intro digest hdigest
    obtain ⟨object, hobject⟩ := hresolved digest hdigest
    exact ⟨object, (get_eq_some hpack).mp hobject⟩

end Retain

/-! ## Garbage collection

`generation_roots` lists the manifests of the active generation and its predecessors with everything
they name. The chain of manifests is read from listed objects only, so a pack that was rebuilt from
the list has the same roots. -/

section Names

variable (pack : ContentPack)

/-- The manifest under a digest. -/
def ManifestAt (digest : ContentDigest) (manifest : GenerationManifest) : Prop :=
  ∃ object, pack.get digest = some object ∧ object.kind = .generationManifest ∧
    GenerationManifest.parse object.bytes = .ok manifest

/-- The security manifest under a digest. -/
def SecurityAt (digest : ContentDigest) (security : SecurityManifest) : Prop :=
  ∃ object, pack.get digest = some object ∧ object.kind = .securityManifest ∧
    SecurityManifest.parse object.bytes = .ok security

/-- The four typed objects of a security manifest. -/
def SecurityManifest.typed (security : SecurityManifest) : List (ContentDigest × ObjectKind) :=
  [(security.registry, .identityRegistry), (security.mapping, .identityMapping),
    (security.mount, .mountPolicy), (security.acl, .nativeAcl)]

/-- The security part of what a manifest names. -/
inductive NamesSecurity (manifest : GenerationManifest) : ContentDigest → Prop where
  | manifest {digest : ContentDigest} (hsecurity : manifest.security = some digest) :
      NamesSecurity manifest digest
  | typed {digest identity : ContentDigest} {security : SecurityManifest} {kind : ObjectKind}
      (hsecurity : manifest.security = some digest) (hat : SecurityAt pack digest security)
      (hidentity : (identity, kind) ∈ security.typed) : NamesSecurity manifest identity

/-- What a generation contributes: its manifest, the configuration and the security objects. -/
def Contributes (digest : ContentDigest) (manifest : GenerationManifest) (named : ContentDigest) :
    Prop :=
  named = digest ∨ named = manifest.config ∨ NamesSecurity pack manifest named

/-- The second generation is the direct predecessor of the first. -/
def Precedes (digest previous : ContentDigest) : Prop :=
  ∃ manifest, ManifestAt pack digest manifest ∧ manifest.previous = some previous

/-- What the generations from `active` back contribute. -/
def Reachable (active named : ContentDigest) : Prop :=
  ∃ digest manifest, Relation.ReflTransGen (Precedes pack) active digest ∧
    ManifestAt pack digest manifest ∧ Contributes pack digest manifest named

end Names

section Roots

variable {pack : ContentPack} {digest named : ContentDigest} {roots roots' : List ContentDigest}
  {manifest : GenerationManifest} {newer : Option ℕ}

theorem ManifestAt.unique {m m' : GenerationManifest}
    (h : ManifestAt pack digest m) (h' : ManifestAt pack digest m') : m = m' := by
  obtain ⟨object, hget, -, hparse⟩ := h
  obtain ⟨object', hget', -, hparse'⟩ := h'
  cases hget.symm.trans hget'
  exact Except.ok.inj (hparse.symm.trans hparse')

theorem SecurityAt.unique {s s' : SecurityManifest}
    (h : SecurityAt pack digest s) (h' : SecurityAt pack digest s') : s = s' := by
  obtain ⟨object, hget, -, hparse⟩ := h
  obtain ⟨object', hget', -, hparse'⟩ := h'
  cases hget.symm.trans hget'
  exact Except.ok.inj (hparse.symm.trans hparse')

@[simp] theorem mem_pushUniqueRoot :
    named ∈ pushUniqueRoot roots digest ↔ named ∈ roots ∨ named = digest := by
  unfold pushUniqueRoot
  split
  next hmem =>
    rw [iff_self_or]
    rintro rfl
    exact hmem
  · simp

theorem getKind_eq_ok {kind : ObjectKind} {object : ContentObject} :
    pack.getKind digest kind = .ok object ↔ pack.get digest = some object ∧ object.kind = kind := by
  simp only [ContentPack.getKind, ok_rules, Decidable.not_not, Except.ok.injEq]
  constructor
  · rintro ⟨object, hget, ⟨⟩, hkind, rfl⟩
    exact ⟨hget, hkind⟩
  · rintro ⟨hget, hkind⟩
    exact ⟨object, hget, (), hkind, rfl⟩

/-! ## The loop over the generations -/

/-- The typed objects are listed. -/
theorem mem_foldlM_typedStep {typed : List (ContentDigest × ObjectKind)}
    (h : typed.foldlM pack.typedStep roots = .ok roots') :
    named ∈ roots' ↔ named ∈ roots ∨ ∃ kind, (named, kind) ∈ typed := by
  refine foldlM_ok_induction
    (P := fun typed roots' => named ∈ roots' ↔ named ∈ roots ∨ ∃ kind, (named, kind) ∈ typed)
    h (by simp) ?_
  rintro done ⟨digest, kind⟩ current next hcurrent hstep
  simp only [typedStep, ok_rules, Except.ok.injEq] at hstep
  obtain ⟨-, -, rfl⟩ := hstep
  rw [mem_pushUniqueRoot, hcurrent]
  simp only [mem_append, List.mem_singleton, Prod.mk.injEq, exists_or, or_assoc,
    exists_and_left, exists_eq, and_true]

/-- The security part lists what the manifest names. -/
theorem mem_securityRoots (h : pack.securityRoots manifest roots = .ok roots') :
    named ∈ roots' ↔ named ∈ roots ∨ NamesSecurity pack manifest named := by
  unfold ContentPack.securityRoots at h
  split at h
  next hsecurity =>
    cases h
    rw [iff_self_or]
    intro hnames
    cases hnames with
    | manifest h => cases hsecurity.symm.trans h
    | typed h => cases hsecurity.symm.trans h
  next digest hsecurity =>
    simp only [ok_rules, getKind_eq_ok] at h
    obtain ⟨object, ⟨hget, hkind⟩, security, hparse, ⟨⟩, -, hfold⟩ := h
    have hat : SecurityAt pack digest security := ⟨object, hget, hkind, hparse⟩
    rw [mem_foldlM_typedStep hfold, mem_pushUniqueRoot, or_assoc]
    refine or_congr_right ⟨?_, ?_⟩
    · rintro (rfl | ⟨kind, htyped⟩)
      · exact .manifest hsecurity
      · exact .typed hsecurity hat htyped
    · intro hnames
      cases hnames with
      | manifest h => exact .inl (Option.mem_unique h hsecurity)
      | typed h hat' htyped =>
        cases hsecurity.symm.trans h
        cases hat.unique hat'
        exact .inr ⟨_, htyped⟩

/-- A turn of the loop reads the manifest and lists what the generation contributes. -/
theorem visitGeneration_ok (h : pack.visitGeneration newer roots digest = .ok (manifest, roots')) :
    ManifestAt pack digest manifest ∧
      ∀ named, named ∈ roots' ↔ named ∈ roots ∨ Contributes pack digest manifest named := by
  simp only [ContentPack.visitGeneration, ok_rules, getKind_eq_ok, Except.ok.injEq,
    Prod.mk.injEq] at h
  obtain ⟨⟨⟩, -, object, ⟨hget, hkind⟩, _, hparse, ⟨⟩, -, -, -, _, hsecurity, rfl, rfl⟩ := h
  refine ⟨⟨object, hget, hkind, hparse⟩, fun named => ?_⟩
  rw [mem_securityRoots hsecurity, mem_pushUniqueRoot, mem_pushUniqueRoot, Contributes, or_assoc,
    or_assoc]

/-- The loop lists what the generations from the next one back contribute. -/
theorem mem_rootsLoop {remaining : ℕ}
    {next : Option ContentDigest} (h : pack.rootsLoop newer roots remaining next = .ok roots')
    (named : ContentDigest) :
    named ∈ roots' ↔ named ∈ roots ∨ ∃ digest ∈ next, Reachable pack digest named := by
  induction remaining generalizing newer roots next with
  | zero =>
    cases next with
    | none =>
      cases h
      simp
    | some digest => cases h
  | succ remaining ih =>
    cases next with
    | none =>
      cases h
      simp
    | some digest =>
      rw [rootsLoop, bind_eq_ok] at h
      obtain ⟨⟨manifest, visited⟩, hvisit, hrest⟩ := h
      obtain ⟨hat, hvisited⟩ := visitGeneration_ok hvisit
      rw [ih hrest, hvisited, or_assoc]
      refine or_congr_right ?_
      simp only [Option.mem_def, Option.some.injEq, exists_eq_left']
      constructor
      · rintro (hnamed | ⟨previous, hprevious, older, manifest', hchain, hat', hnamed⟩)
        · exact ⟨digest, manifest, .refl, hat, hnamed⟩
        · exact ⟨older, manifest', .head ⟨manifest, hat, hprevious⟩ hchain, hat', hnamed⟩
      · rintro ⟨older, manifest', hchain, hat', hnamed⟩
        -- Either the manifest is the one just read, or the chain goes on from its predecessor.
        rcases Relation.ReflTransGen.cases_head hchain with rfl | ⟨previous, hfirst, hchain⟩
        · cases hat.unique hat'
          exact .inl hnamed
        · obtain ⟨manifest'', hat'', hprevious⟩ := hfirst
          cases hat.unique hat''
          exact .inr ⟨previous, hprevious, older, manifest', hchain, hat', hnamed⟩

end Roots

/-! ## The roots of a rebuilt pack -/

section Agreement

variable {pack collected : ContentPack} {roots roots' : List ContentDigest} {digest : ContentDigest}
  {manifest : GenerationManifest} {newer : Option ℕ}

/-- The packs hold the same objects under the listed digests. -/
def AgreeOn (roots : List ContentDigest) (pack collected : ContentPack) : Prop :=
  ∀ digest ∈ roots, collected.get digest = pack.get digest

theorem AgreeOn.getKind (h : AgreeOn roots pack collected)
    (hdigest : digest ∈ roots) (kind : ObjectKind) :
    collected.getKind digest kind = pack.getKind digest kind := by
  rw [ContentPack.getKind, h digest hdigest, ContentPack.getKind]

theorem AgreeOn.mono (h : AgreeOn roots' pack collected)
    (hsubset : roots ⊆ roots') : AgreeOn roots pack collected :=
  fun digest hdigest => h digest (hsubset hdigest)

variable (hagree : AgreeOn roots' pack collected)
include hagree

theorem AgreeOn.securityRoots (h : pack.securityRoots manifest roots = .ok roots') :
    collected.securityRoots manifest roots = .ok roots' := by
  have hmem named : named ∈ roots' ↔ named ∈ roots ∨ NamesSecurity pack manifest named :=
    mem_securityRoots h
  unfold ContentPack.securityRoots at h ⊢
  split at h
  · exact h
  next digest hsecurity =>
    have hdigest : digest ∈ roots' := (hmem digest).mpr (.inr (.manifest hsecurity))
    simp only [ok_rules, hagree.getKind hdigest] at h ⊢
    obtain ⟨object, hobject, security, hparse, ⟨⟩, hgeneration, hfold⟩ := h
    refine ⟨object, hobject, security, hparse, (), hgeneration, ?_⟩
    rw [← hfold]
    refine foldlM_congr_mem (fun typed htyped current => ?_) _
    have hlisted : typed.1 ∈ roots' :=
      (mem_foldlM_typedStep hfold).mpr (.inr ⟨typed.2, htyped⟩)
    rw [typedStep, hagree.getKind hlisted, typedStep]

theorem AgreeOn.visitGeneration
    (h : pack.visitGeneration newer roots digest = .ok (manifest, roots')) :
    collected.visitGeneration newer roots digest = .ok (manifest, roots') := by
  have hmem := (visitGeneration_ok h).2
  have hdigest : digest ∈ roots' := (hmem digest).mpr (.inr (.inl rfl))
  have hconfig : manifest.config ∈ roots' := (hmem _).mpr (.inr (.inr (.inl rfl)))
  simp only [ContentPack.visitGeneration, ok_rules, Except.ok.injEq, Prod.mk.injEq,
    hagree.getKind hdigest] at h ⊢
  obtain ⟨⟨⟩, hfresh, object, hobject, _, hparse, ⟨⟩, hnewer, config, hconfigObject, _, hsecurity,
    rfl, rfl⟩ := h
  refine ⟨(), hfresh, object, hobject, _, hparse, (), hnewer, config, ?_, _,
    hagree.securityRoots hsecurity, rfl, rfl⟩
  rw [hagree.getKind hconfig, hconfigObject]

/-- A run that lists the roots reads only listed objects. -/
theorem AgreeOn.rootsLoop {remaining : ℕ} {next : Option ContentDigest}
    (h : pack.rootsLoop newer roots remaining next = .ok roots') :
    collected.rootsLoop newer roots remaining next = .ok roots' := by
  induction remaining generalizing newer roots next with
  | zero =>
    cases next with
    | none => exact h
    | some digest => exact h
  | succ remaining ih =>
    cases next with
    | none => exact h
    | some digest =>
      rw [rootsLoop, bind_eq_ok] at h ⊢
      obtain ⟨⟨manifest, visited⟩, hvisit, hrest⟩ := h
      have hvisited : visited ⊆ roots' :=
        fun named hnamed => (mem_rootsLoop hrest named).mpr (.inl hnamed)
      exact ⟨(manifest, visited), (hagree.mono hvisited).visitGeneration hvisit, ih hrest⟩

end Agreement

/-- **Garbage collection keeps exactly what is reachable.** Rebuilding an accepted pack from its
generation roots yields an accepted pack that holds exactly the listed objects, unchanged, and has
the same roots; and the roots are the manifests of the active generation and its predecessors with
the objects they name. -/
theorem retain_generationRoots {packGranted rootsGranted identitiesGranted outputGranted : Bool}
    {image output : Bytes} {pack : ContentPack} {active : ContentDigest}
    {maxGenerations maxObjects maxBytes : ℕ} {roots : List ContentDigest}
    (hparse : parse packGranted image = .ok pack)
    (hroots : pack.generationRoots rootsGranted active maxGenerations = .ok roots)
    (hretain : pack.retain identitiesGranted outputGranted roots maxObjects maxBytes =
      .ok output) :
    (∃ collected, parse true output = .ok collected ∧
      (∀ object, object ∈ collected.objects ↔ object ∈ pack.objects ∧ object.digest ∈ roots) ∧
      (∀ digest ∈ roots, ∃ object ∈ collected.objects, object.digest = digest) ∧
      (∀ digest, collected.get digest = if digest ∈ roots then pack.get digest else none) ∧
      collected.generationRoots true active maxGenerations = .ok roots) ∧
    ∀ digest, digest ∈ roots ↔ Reachable pack active digest := by
  have hpack := verified_of_parse hparse
  obtain ⟨objects, rfl, hverified, hne, hcount, hsize, hmem, hlisted⟩ :=
    retain_eq_encodePack hpack hretain
  have hcollected := parse_encodePack hverified hne hcount hsize
  have hobjects := objects_packOf objects
  generalize packOf objects = collected at hcollected hobjects
  subst hobjects
  have hget : ∀ digest, collected.get digest =
      if digest ∈ roots then pack.get digest else none := by
    intro digest
    apply Option.ext
    intro object
    rw [get_eq_some hverified, hmem]
    by_cases hdigest : digest ∈ roots
    · rw [if_pos hdigest, get_eq_some hpack, and_assoc]
      refine and_congr_right fun _ => and_iff_right_of_imp ?_
      rintro rfl
      exact hdigest
    · rw [if_neg hdigest]
      refine iff_of_false ?_ (by simp)
      rintro ⟨⟨-, hmem⟩, rfl⟩
      exact hdigest hmem
  have hagree : AgreeOn roots pack collected := by
    intro digest hdigest
    rw [hget, if_pos hdigest]
  simp only [generationRoots, ok_rules] at hroots
  obtain ⟨⟨⟩, hlimits, ⟨⟩, -, hloop⟩ := hroots
  refine ⟨⟨collected, hcollected, hmem, ?_, hget, ?_⟩, ?_⟩
  · intro digest hdigest
    obtain ⟨object, hobject, rfl⟩ := hlisted digest hdigest
    exact ⟨object, (hmem object).mpr ⟨hobject, hdigest⟩, rfl⟩
  · simp only [generationRoots, ok_rules]
    exact ⟨(), hlimits, (), by simp, hagree.rootsLoop hloop⟩
  · intro digest
    rw [mem_rootsLoop hloop]
    simp

/-! ## A pack with an unreachable object -/

def sampleConfig : ContentObject where
  digest := ⟨[75, 245, 18, 47, 52, 69, 84, 197, 59, 222, 46, 187, 140, 210, 183, 227, 209, 96, 10,
    214, 49, 195, 133, 165, 215, 204, 226, 60, 119, 133, 69, 154], rfl⟩
  kind := .systemConfig
  bytes := [1]

def sampleManifest : ContentObject where
  digest := ⟨[95, 45, 74, 212, 129, 76, 232, 20, 184, 103, 96, 12, 123, 144, 150, 198, 100, 249, 204,
    254, 29, 17, 48, 207, 76, 100, 4, 163, 171, 24, 28, 18], rfl⟩
  kind := .generationManifest
  bytes := GenerationManifest.encode ⟨2, sampleConfig.digest, none, none⟩

def sampleUnreachable : ContentObject where
  digest := ⟨[219, 193, 180, 201, 0, 255, 228, 141, 87, 91, 93, 165, 198, 56, 4, 1, 37, 246, 93, 176,
    254, 62, 36, 73, 75, 118, 234, 152, 100, 87, 217, 134], rfl⟩
  kind := .data
  bytes := [2]

/-- In the order of their digests. -/
def sampleObjects : List ContentObject := [sampleConfig, sampleManifest, sampleUnreachable]

theorem verified_sampleObjects : Verified sampleObjects where
  each := by
    simp only [sampleObjects, List.forall_mem_cons, List.not_mem_nil, false_implies, implies_true,
      and_true]
    refine ⟨⟨?_, ?_, ?_, ?_⟩, ⟨?_, ?_, ?_, ?_⟩, ⟨?_, ?_, ?_, ?_⟩⟩
    all_goals decide +kernel
  sorted := by decide +kernel

def sampleRoots : List ContentDigest := [sampleManifest.digest, sampleConfig.digest]

theorem retain_generationRoots_sample :
    parse true (encodePack sampleObjects) = .ok (packOf sampleObjects) ∧
      (∀ digest, digest ∈ sampleRoots ↔
        Reachable (packOf sampleObjects) sampleManifest.digest digest) ∧
      ∃ output collected,
        (packOf sampleObjects).retain true true sampleRoots 64 4096 = .ok output ∧
        parse true output = .ok collected ∧
        collected.get sampleUnreachable.digest = none ∧
        collected.generationRoots true sampleManifest.digest 2 = .ok sampleRoots := by
  have hparse : parse true (encodePack sampleObjects) = .ok (packOf sampleObjects) :=
    parse_encodePack verified_sampleObjects (by simp [sampleObjects]) (by decide +kernel)
      (by decide +kernel)
  have hroots : (packOf sampleObjects).generationRoots true sampleManifest.digest 2 =
      .ok sampleRoots := by
    decide +kernel
  have hok : ((packOf sampleObjects).retain true true sampleRoots 64 4096).isOk = true := by
    decide +kernel
  cases hretain : (packOf sampleObjects).retain true true sampleRoots 64 4096 with
  | error error =>
    rw [hretain] at hok
    cases hok
  | ok output =>
    have hunlisted : sampleUnreachable.digest ∉ sampleRoots := by
      decide +kernel
    obtain ⟨⟨collected, hcollected, -, -, hget, hsame⟩, hreachable⟩ :=
      retain_generationRoots hparse hroots hretain
    refine ⟨hparse, hreachable, output, collected, rfl, hcollected, ?_, hsame⟩
    rw [hget, if_neg hunlisted]

end Troe.Cspk
