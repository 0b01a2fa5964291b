import Troe.Application.Format

/-!
# Static TLS

The model of `static_tls.rs`: the layout of a thread's TLS mapping for the two targets, and its
initialization in one piece or chunk by chunk. Every chunk is a part of one image of the mapping.
-/

namespace Troe.Application

open Lib

/-- `LOCAL_EXEC_BYTES`. -/
def localExecBytes : ℕ := 2 ^ 24

/-- `StaticTlsError`. -/
inductive StaticTlsError where
  | invalidAlignment
  | invalidTemplateSize
  | arithmeticOverflow
  | offsetLimit
  | pageBudget
  | invalidMapping
  | invalidBufferSize
deriving DecidableEq

/-- `StaticTlsLayout`. -/
structure StaticTlsLayout where
  target : Target
  fileBytes : ℕ
  memoryBytes : ℕ
  alignment : ℕ
  templateOffset : ℕ
  threadPointerOffset : ℕ
  mappedBytes : ℕ
deriving DecidableEq

/-- `round_up`. -/
def roundUp (value alignment : ℕ) : Except StaticTlsError ℕ := do
  let value ← okOr (checkedAdd 64 value (alignment - 1)) .arithmeticOverflow
  .ok (value &&& (2 ^ 64 - 1 - (alignment - 1)))

/-- `copy_overlap`. -/
def copyOverlap (destination : Bytes) (offset : ℕ) (source : Bytes) (start : ℕ) : Bytes :=
  let first := max offset start
  let last := min (offset + destination.length) (start + source.length)
  if first < last then
    splice destination (first - offset) ((source.drop (first - start)).take (last - first))
  else destination

namespace StaticTlsLayout

/-- The offsets of the template and of the thread pointer, and the end of both. -/
def offsets (target : Target) (memoryBytes alignment : ℕ) : Except StaticTlsError (ℕ × ℕ × ℕ) :=
  match target with
  | .x86_64 => do
    let span ← roundUp memoryBytes alignment
    rejectIf (localExecBytes < span) .offsetLimit
    let pointer ← roundUp span 8
    let finish ← okOr (checkedAdd 64 pointer 8) .arithmeticOverflow
    .ok (pointer - span, pointer, finish)
  | .aarch64 => do
    let template ← roundUp 16 alignment
    let finish ← okOr (checkedAdd 64 template memoryBytes) .arithmeticOverflow
    rejectIf (localExecBytes < finish) .offsetLimit
    .ok (template, 0, finish)

/-- `new`. -/
def new (target : Target) (fileBytes memoryBytes alignment maxPages : ℕ) :
    Except StaticTlsError StaticTlsLayout := do
  rejectIf (¬ ∃ k < 64, alignment = 2 ^ k) .invalidAlignment
  rejectIf (memoryBytes < fileBytes) .invalidTemplateSize
  let (template, pointer, finish) ← offsets target memoryBytes alignment
  rejectIf (localExecBytes < alignment) .offsetLimit
  let mappedBytes ← roundUp finish pageSize
  rejectIf (maxPages < mappedBytes / pageSize) .pageBudget
  .ok ⟨target, fileBytes, memoryBytes, alignment, template, pointer, mappedBytes⟩

variable (layout : StaticTlsLayout) (virtualBase : ℕ) (template : Bytes)

/-- `mapping_alignment`. -/
def mappingAlignment : ℕ := if pageSize < layout.alignment then layout.alignment else pageSize

/-- `initialize_chunk`: the thread pointer and the new bytes of the chunk. -/
def initializeChunk (offset : ℕ) (destination : Bytes) : Except StaticTlsError (ℕ × Bytes) := do
  rejectIf (virtualBase < pageSize ∨ ¬ layout.mappingAlignment ∣ virtualBase ∨
    (checkedAdd 64 virtualBase layout.mappedBytes).all (userEnd < ·)) .invalidMapping
  rejectIf (template.length ≠ layout.fileBytes ∨
    (checkedAdd 64 offset destination.length).all (layout.mappedBytes < ·)) .invalidBufferSize
  let pointer := virtualBase + layout.threadPointerOffset
  let destination := List.replicate destination.length 0
  let destination := copyOverlap destination offset template layout.templateOffset
  .ok (pointer, if layout.target = .x86_64 then
    copyOverlap destination offset (leBytes 8 pointer) layout.threadPointerOffset else destination)

/-- `initialize`. -/
def initializeMapping (destination : Bytes) : Except StaticTlsError (ℕ × Bytes) := do
  rejectIf (destination.length ≠ layout.mappedBytes) .invalidBufferSize
  layout.initializeChunk virtualBase template 0 destination

/-- The bytes of `source` from `start` on, over what is elsewhere. -/
def overlay (source : Bytes) (start : ℕ) (elsewhere : ℕ → UInt8) (p : ℕ) : UInt8 :=
  if start ≤ p ∧ p < start + source.length then source.getD (p - start) 0 else elsewhere p

/-- The part of a mapping from `offset` on. -/
def window (contents : ℕ → UInt8) (offset length : ℕ) : Bytes :=
  (List.range length).map fun i => contents (offset + i)

/-- A caller's loop over chunks, each an offset and a length: all thread pointers, and what the
mapping holds in the end. -/
def initializeChunks :
    List (ℕ × ℕ) → (ℕ → UInt8) → Except StaticTlsError (List ℕ × (ℕ → UInt8))
  | [], contents => .ok ([], contents)
  | (offset, length) :: chunks, contents => do
    let (pointer, bytes) ←
      layout.initializeChunk virtualBase template offset (window contents offset length)
    let (pointers, contents) ← initializeChunks chunks (overlay bytes offset contents)
    .ok (pointer :: pointers, contents)

/-- What the mapping holds at an offset: zeros under the template, and on x86-64 over both the
thread pointer's own address. -/
def image : ℕ → UInt8 :=
  let initialized := overlay template layout.templateOffset fun _ => 0
  if layout.target = .x86_64 then
    overlay (leBytes 8 (virtualBase + layout.threadPointerOffset)) layout.threadPointerOffset
      initialized
  else initialized

/-- The mapping may stand at this address. -/
structure Accepts : Prop where
  page : pageSize ≤ virtualBase
  aligned : layout.mappingAlignment ∣ virtualBase
  inside : virtualBase + layout.mappedBytes ≤ userEnd

variable {layout virtualBase template} {offset length : ℕ} {contents : ℕ → UInt8}

@[simp] theorem length_window : (window contents offset length).length = length := by
  simp [window]

@[simp] theorem getElem?_window (i : ℕ) : (window contents offset length)[i]? =
    if i < length then some (contents (offset + i)) else none := by
  by_cases hi : i < length
  · simp [window, hi]
  · simp [window, hi]

/-- Copying into a window of a mapping changes what the window shows of the mapping. -/
theorem copyOverlap_window (source : Bytes) (start : ℕ) :
    copyOverlap (window contents offset length) offset source start =
      window (overlay source start contents) offset length := by
  refine List.ext_getElem? fun i => ?_
  simp only [copyOverlap, length_window]
  split
  · rw [getElem?_splice (by simp; omega)]
    grind [overlay, getElem?_window]
  · grind [overlay, getElem?_window]

theorem overlay_window {elsewhere : ℕ → UInt8} (p : ℕ) :
    overlay (window contents offset length) offset elsewhere p =
      if offset ≤ p ∧ p < offset + length then contents p else elsewhere p := by
  grind [overlay, getElem?_window, length_window]

theorem checkedAdd_all_lt {a b limit : ℕ} (h : limit < 2 ^ 64) :
    (checkedAdd 64 a b).all (limit < ·) = true ↔ limit < a + b := by
  unfold checkedAdd
  split
  · simp
  · simpa using by omega

section

variable (h : layout.Accepts virtualBase) (htemplate : template.length = layout.fileBytes)
include h htemplate

/-- A chunk is initialized to its part of the image. -/
theorem initializeChunk_eq {destination : Bytes}
    (hinside : offset + destination.length ≤ layout.mappedBytes) :
    layout.initializeChunk virtualBase template offset destination =
      .ok (virtualBase + layout.threadPointerOffset,
        window (layout.image virtualBase template) offset destination.length) := by
  obtain ⟨hpage, haligned, hmapping⟩ := h
  have hend : userEnd < 2 ^ 64 := by decide
  have hzero : List.replicate destination.length 0 =
      window (fun _ => 0) offset destination.length := by simp [window]
  simp only [ok_rules, initializeChunk, Except.ok.injEq, Prod.mk.injEq,
    checkedAdd_all_lt hend, checkedAdd_all_lt (show layout.mappedBytes < 2 ^ 64 by omega), hzero,
    copyOverlap_window, image, true_and]
  refine ⟨(), by omega, (), by omega, ?_⟩
  split
  · rfl
  · rfl

/-- The chunks leave the image where one of them is, and the rest of the mapping as it was. -/
theorem initializeChunks_eq {chunks : List (ℕ × ℕ)}
    (hinside : ∀ c ∈ chunks, c.1 + c.2 ≤ layout.mappedBytes) :
    layout.initializeChunks virtualBase template chunks contents =
      .ok (List.replicate chunks.length (virtualBase + layout.threadPointerOffset), fun p =>
        if ∃ c ∈ chunks, c.1 ≤ p ∧ p < c.1 + c.2 then layout.image virtualBase template p
        else contents p) := by
  induction chunks generalizing contents with
  | nil => simp [initializeChunks]
  | cons c chunks ih =>
    obtain ⟨hc, hrest⟩ := List.forall_mem_cons.mp hinside
    rw [initializeChunks, initializeChunk_eq h htemplate (by rwa [length_window]), length_window]
    simp only [bind, Except.bind, ih hrest, List.mem_cons, exists_eq_or_imp,
      List.length_cons, List.replicate_succ]
    refine congrArg (fun contents => Except.ok (_, contents)) (funext fun p => ?_)
    rw [overlay_window]
    by_cases hp : ∃ c ∈ chunks, c.1 ≤ p ∧ p < c.1 + c.2
    · simp [hp]
    · simp [hp]

end

/-! ## The layout -/

/-- `v` is `value` rounded up to a multiple of `alignment`. -/
def RoundedUp (value alignment v : ℕ) : Prop :=
  alignment ∣ v ∧ value ≤ v ∧ v < value + alignment

/-- Masking the low bits of a word leaves a multiple of the alignment. -/
theorem and_mask {n k : ℕ} (h : n < 2 ^ 64) (hk : k < 64) :
    n &&& (2 ^ 64 - 1 - (2 ^ k - 1)) = n / 2 ^ k * 2 ^ k := by
  have hpow : 2 ^ k < 2 ^ 64 := Nat.pow_lt_pow_right (by decide) hk
  refine Nat.eq_of_testBit_eq fun i => ?_
  rw [show 2 ^ 64 - 1 - (2 ^ k - 1) = 2 ^ 64 - (2 ^ k - 1 + 1) by omega, Nat.testBit_and,
    Nat.testBit_two_pow_sub_succ (by omega), Nat.testBit_mul_two_pow]
  rcases Nat.lt_or_ge i 64 with hlast | hlast
  · grind
  · have hword : n < 2 ^ i := h.trans_le (Nat.pow_le_pow_right (by decide) hlast)
    grind [Nat.testBit_lt_two_pow]

theorem roundedUp_of_roundUp {value k v : ℕ} (hk : k < 64) (h : roundUp value (2 ^ k) = .ok v) :
    RoundedUp value (2 ^ k) v := by
  simp only [roundUp, ok_rules, Except.ok.injEq] at h
  obtain ⟨_, ⟨hlt, rfl⟩, rfl⟩ := h
  have hpow := Nat.two_pow_pos k
  have hlow := Nat.div_mul_le_self (value + (2 ^ k - 1)) (2 ^ k)
  have hhigh := Nat.lt_div_mul_add hpow (a := value + (2 ^ k - 1))
  rw [and_mask hlt hk]
  exact ⟨Nat.dvd_mul_left _ _, by omega, by omega⟩

/-- The template is aligned, and stands at the linker's displacement from the thread pointer. -/
theorem offsets_eq_ok {target : Target} {memoryBytes k t p e : ℕ} (hk : k < 64)
    (h : offsets target memoryBytes (2 ^ k) = .ok (t, p, e)) :
    2 ^ k ∣ t ∧ t + memoryBytes ≤ e ∧
      (target = .x86_64 → RoundedUp memoryBytes (2 ^ k) (p - t) ∧ t + memoryBytes ≤ p ∧ p + 8 ≤ e) ∧
      (target = .aarch64 → p = 0 ∧ RoundedUp 16 (2 ^ k) t) := by
  cases target with
  | x86_64 =>
    simp only [offsets, ok_rules, Except.ok.injEq, Prod.mk.injEq] at h
    obtain ⟨span, hspan, -, -, pointer, hpointer, -, ⟨-, rfl⟩, rfl, rfl, rfl⟩ := h
    obtain ⟨hdvd, hfits, hspan⟩ := roundedUp_of_roundUp hk hspan
    obtain ⟨h8, hle, hlt⟩ := roundedUp_of_roundUp (k := 3) (by decide) hpointer
    refine ⟨?_, by omega, fun _ => ⟨?_, by omega, le_rfl⟩, by simp⟩
    · rcases Nat.le_total k 3 with hk | hk
      · exact Nat.dvd_sub ((Nat.pow_dvd_pow 2 hk).trans h8) hdvd
      · have hspan8 : 2 ^ 3 ∣ span := (Nat.pow_dvd_pow 2 hk).trans hdvd
        rw [show pointer - span = 0 by omega]
        exact Nat.dvd_zero _
    · rw [Nat.sub_sub_self hle]
      exact ⟨hdvd, hfits, hspan⟩
  | aarch64 =>
    simp only [offsets, ok_rules, Except.ok.injEq, Prod.mk.injEq] at h
    obtain ⟨template, htemplate, -, ⟨-, rfl⟩, -, -, rfl, rfl, rfl⟩ := h
    have htemplate := roundedUp_of_roundUp hk htemplate
    exact ⟨htemplate.1, le_rfl, by simp, fun _ => ⟨rfl, htemplate⟩⟩

/-- An address aligned for the mapping is aligned for the template. -/
theorem Accepts.alignment_dvd {k : ℕ} (h : layout.Accepts virtualBase)
    (halignment : layout.alignment = 2 ^ k) : 2 ^ k ∣ virtualBase := by
  refine Nat.dvd_trans ?_ h.aligned
  rw [mappingAlignment, halignment]
  split
  · exact Nat.dvd_refl _
  next hpage =>
    have hk : k ≤ 12 := (Nat.pow_le_pow_iff_right Nat.one_lt_two).mp (Nat.le_of_not_lt hpage)
    exact Nat.pow_dvd_pow 2 hk

/-- Chunks that cover the mapping, in any order, leave the same bytes and give the same thread
pointer as the initialization in one piece, and the template stands where the linker expects it. -/
theorem initialize_any_chunks {target : Target} {fileBytes memoryBytes alignment maxPages : ℕ}
    {destination : Bytes} {chunks : List (ℕ × ℕ)} (contents : ℕ → UInt8)
    (hnew : new target fileBytes memoryBytes alignment maxPages = .ok layout)
    (h : layout.Accepts virtualBase) (htemplate : template.length = fileBytes)
    (hdestination : destination.length = layout.mappedBytes)
    (hinside : ∀ c ∈ chunks, c.1 + c.2 ≤ layout.mappedBytes)
    (hcover : ∀ p < layout.mappedBytes, ∃ c ∈ chunks, c.1 ≤ p ∧ p < c.1 + c.2) :
    let pointer := virtualBase + layout.threadPointerOffset
    let bytes := window (layout.image virtualBase template) 0 layout.mappedBytes
    layout.initializeMapping virtualBase template destination = .ok (pointer, bytes) ∧
      (∃ contents', layout.initializeChunks virtualBase template chunks contents =
          .ok (List.replicate chunks.length pointer, contents') ∧
        window contents' 0 layout.mappedBytes = bytes) ∧
      layout.target = target ∧ alignment ∣ virtualBase + layout.templateOffset ∧
      layout.templateOffset + memoryBytes ≤ layout.mappedBytes ∧
      (target = .x86_64 →
        RoundedUp memoryBytes alignment (layout.threadPointerOffset - layout.templateOffset) ∧
        layout.templateOffset + memoryBytes ≤ layout.threadPointerOffset ∧
        layout.threadPointerOffset + 8 ≤ layout.mappedBytes) ∧
      (target = .aarch64 →
        layout.threadPointerOffset = 0 ∧ RoundedUp 16 alignment layout.templateOffset) := by
  simp only [new, ok_rules, Except.ok.injEq] at hnew
  obtain ⟨-, hpower, -, -, ⟨t, p, e⟩, hoffsets, -, -, mapped, hmapped, -, -, hlayout⟩ := hnew
  obtain ⟨k, hk, rfl⟩ := not_not.mp hpower
  obtain ⟨hdvd, hend, hx86, haarch64⟩ := offsets_eq_ok hk hoffsets
  obtain ⟨-, hle, -⟩ := roundedUp_of_roundUp (k := 12) (by decide) hmapped
  have hfile : template.length = layout.fileBytes := by rw [← hlayout, htemplate]
  refine ⟨?_, ⟨_, initializeChunks_eq h hfile hinside, ?_⟩, ?_⟩
  · simp only [initializeMapping, ok_rules]
    refine ⟨(), not_not.mpr hdestination, ?_⟩
    rw [initializeChunk_eq h hfile (by omega), hdestination]
  · refine List.map_congr_left fun i hi => if_pos (hcover _ ?_)
    rw [Nat.zero_add]
    exact List.mem_range.mp hi
  · have hbase := h.alignment_dvd (k := k) (by rw [← hlayout])
    subst hlayout
    refine ⟨rfl, Nat.dvd_add hbase hdvd, hend.trans hle, fun htarget => ?_, haarch64⟩
    obtain ⟨hspan, hbelow, hword⟩ := hx86 htarget
    exact ⟨hspan, hbelow, hword.trans hle⟩

/-- Two halves, the second one first. -/
theorem initialize_any_chunks_halves :
    let layout : StaticTlsLayout := ⟨.x86_64, 3, 5, 4, 0, 8, 4096⟩
    let chunks := [(2048, 2048), (0, 2048)]
    ∃ contents, layout.initializeChunks 4096 [1, 2, 3] chunks (fun _ => 255) =
        .ok ([4104, 4104], contents) ∧
      window contents 0 4096 = window (layout.image 4096 [1, 2, 3]) 0 4096 := by
  intro layout chunks
  have hnew : new .x86_64 3 5 4 1 = .ok layout := by decide
  have hlength : (List.replicate 4096 (0 : UInt8)).length = 4096 := List.length_replicate
  have hcover : ∀ p < 4096, ∃ c ∈ chunks, c.1 ≤ p ∧ p < c.1 + c.2 := by
    simp only [chunks, List.mem_cons, List.not_mem_nil, or_false, exists_eq_or_imp, exists_eq_left]
    omega
  exact (initialize_any_chunks _ hnew ⟨by decide, by decide, by decide⟩ rfl hlength (by decide)
    hcover).2.1

end StaticTlsLayout

end Troe.Application
