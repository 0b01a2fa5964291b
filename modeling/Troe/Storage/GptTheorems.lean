import Troe.Storage.Gpt

/-!
# What GPT discovery guarantees

Every read stays inside the region, whatever the device answers. A table that is accepted has two
agreeing copies around its usable range, and its partitions are disjoint ranges of blocks inside it.
-/

namespace Troe.Gpt

open Lib Block
open Prog (calls_ofExcept calls_ofOption calls_pure calls_reject)

/-! ## Requests of a region -/

variable {region : BlockRegion}

/-- A granted region lies inside its device. -/
theorem granted_within_device (h : region.Granted) :
    region.startBlock + region.blockCount ≤ region.geometry.blockCount := by
  obtain ⟨geometry, startBlock, blockCount, access, limits, hnew⟩ := h
  obtain ⟨-, -, hnew⟩ := bind_eq_ok.mp hnew
  split at hnew
  next finish hfinish =>
    rw [checkedAdd_eq_some] at hfinish
    split at hnew
    · cases hnew
    · cases hnew
      dsimp only
      omega
  · cases hnew

/-- A valid request starts at the region's own block zero and ends inside the region. -/
theorem validateRequest_bounds {start count bytes absolute : ℕ}
    (h : region.validateRequest start count bytes = .ok absolute) :
    absolute = region.startBlock + start ∧ start + count ≤ region.blockCount := by
  unfold BlockRegion.validateRequest at h
  simp only [bind, Except.bind, pure, Except.pure, throw, throwThe, MonadExceptOf.throw] at h
  repeat (split at h; try cases h)
  all_goals simp only [ok_rules, reduceCtorEq] at *
  omega

/-- A reservation, or a read of blocks of the region. -/
def ReadsInside (region : BlockRegion) : DeviceCall → Prop
  | .readBlocks start count =>
    region.startBlock ≤ start ∧ start + count ≤ region.startBlock + region.blockCount ∧
      start + count ≤ region.geometry.blockCount
  | .tryReserve _ => True
  | _ => False

section

variable {region : BlockRegion} {limits : GptLimits} {header : GptHeader}

theorem calls_tryReserve (bytes : ℕ) (e : GptError) :
    (tryReserve bytes e).Calls (ReadsInside region) := by
  have hcall : ReadsInside region (.tryReserve bytes) := trivial
  exact (Prog.calls_perform hcall).bind fun _ => calls_reject _ _

variable (hregion : region.Granted)
include hregion

theorem calls_readBlocks (start count bytes : ℕ) :
    (region.readBlocks start count bytes).Calls (ReadsInside region) := by
  refine Prog.calls_ofExcept_bind fun absolute habsolute => ?_
  obtain ⟨rfl, hinside⟩ := validateRequest_bounds habsolute
  have hdevice := granted_within_device hregion
  have hcall : ReadsInside region (.readBlocks (region.startBlock + start) count) :=
    ⟨by omega, by omega, by omega⟩
  exact (Prog.calls_perform hcall).bind fun r => calls_ofExcept r

theorem calls_readOneBlock (lba blockBytes : ℕ) :
    (readOneBlock region lba blockBytes).Calls (ReadsInside region) :=
  (calls_tryReserve _ _).bind fun _ => (calls_readBlocks hregion _ _ _).mapErr _

theorem calls_readEntryBlock (blockBytes : ℕ) (stored : Bytes) (index : ℕ) :
    (readEntryBlock region header blockBytes stored index).Calls (ReadsInside region) :=
  (calls_ofOption _ _).bind fun _ => (calls_ofOption _ _).bind fun _ =>
    (calls_ofOption _ _).bind fun _ =>
      ((calls_readBlocks hregion _ _ _).mapErr _).bind fun _ => calls_pure _

theorem calls_readCheckedArray (blockBytes : ℕ) :
    (readCheckedArray region header limits blockBytes).Calls (ReadsInside region) := by
  have harray : (readEntryArray region header limits blockBytes).Calls (ReadsInside region) :=
    (calls_ofOption _ _).bind fun _ => (calls_reject _ _).bind fun _ =>
      (calls_ofOption _ _).bind fun _ => (calls_tryReserve _ _).bind fun _ =>
        (Prog.calls_foldlM (calls_readEntryBlock hregion _) _ _).bind fun _ => calls_pure _
  exact harray.bind fun _ => (calls_reject _ _).bind fun _ => calls_pure _

/-- No request of `discover` leaves the region, and none writes. -/
theorem calls_discover : (discover region limits).Calls (ReadsInside region) := by
  refine (calls_ofExcept _).bind fun _ => (calls_reject _ _).bind fun _ =>
    (calls_ofOption _ _).bind fun _ => ?_
  refine (calls_readOneBlock hregion _ _).bind fun _ => (calls_ofExcept _).bind fun _ => ?_
  refine (calls_readOneBlock hregion _ _).bind fun _ => (calls_ofExcept _).bind fun _ => ?_
  refine (calls_readOneBlock hregion _ _).bind fun _ => (calls_ofExcept _).bind fun _ => ?_
  refine (calls_ofExcept _).bind fun _ => (calls_ofExcept _).bind fun _ =>
    (calls_ofExcept _).bind fun _ => ?_
  refine (calls_readCheckedArray hregion _).bind fun _ =>
    (calls_readCheckedArray hregion _).bind fun _ => (calls_reject _ _).bind fun _ => ?_
  exact ((calls_tryReserve _ _).bind fun _ => calls_ofExcept _).bind fun _ => calls_pure _

end

/-! ## What the reads return -/

section

variable {ε α β : Type} {bb : ℕ} {m : Media ℕ Bytes} {bytes lba blockBytes : ℕ}
  {region : BlockRegion}

/-- Against the device `m`, the program leaves the device alone and returns only values in `P`. -/
def Sees (bb : ℕ) (m : Media ℕ Bytes) (p : Prog Device ε α) (P : α → Prop) : Prop :=
  Prog.Triple (deviceEnv bb true) (fun _ => True) (· = m) p fun a t => t = m ∧ P a

variable {P : α → Prop} {p : Prog Device ε α} {e : ε}

theorem sees_pure {a : α} (h : P a) : Sees bb m (Pure.pure a : Prog Device ε α) P :=
  Prog.triple_pure fun _ hm => ⟨hm, h⟩

theorem Sees.bind {f : α → Prog Device ε β} {P' : β → Prop} (h : Sees bb m p P)
    (hf : ∀ a, P a → Sees bb m (f a) P') : Sees bb m (p >>= f) P' :=
  Prog.Triple.bind h fun a => Prog.triple_of_fact (hf a)

theorem Sees.mono {P P' : α → Prop} (h : Sees bb m p P) (hP : ∀ a, P a → P' a) : Sees bb m p P' :=
  Prog.Triple.mono h (fun _ hm => hm) fun a _ ha => ⟨ha.1, hP a ha.2⟩

theorem sees_ofExcept {x : Except ε α} :
    Sees bb m (.ofExcept x : Prog Device ε α) fun a => x = .ok a :=
  fun _ _ hm => Prog.wp_ofExcept.mpr ⟨fun _ ha => ⟨trivial, hm, ha⟩, fun _ _ => trivial⟩

theorem sees_ofOption {x : Option α} :
    Sees bb m (.ofOption e x : Prog Device ε α) fun a => x = some a :=
  fun _ _ hm => Prog.wp_ofOption.mpr ⟨fun _ ha => ⟨trivial, hm, ha⟩, fun _ => trivial⟩

theorem sees_reject {c : Prop} [Decidable c] :
    Sees bb m (.reject c e : Prog Device ε Unit) fun _ => ¬ c :=
  fun _ _ hm => Prog.wp_reject.mpr ⟨fun _ => trivial, fun hc => ⟨trivial, hm, hc⟩⟩

theorem sees_tryReserve : Sees bb m (tryReserve bytes e : Prog Device ε Unit) fun _ => True :=
  fun _ _ hm => wp_tryReserve ⟨trivial, hm, trivial⟩ (fun _ => trivial) fun _ _ => trivial

/-- A read of one block returns what the device holds there. -/
theorem sees_readBlock {g : BlockError → ε} :
    Sees bb m ((region.readBlocks lba 1 bytes).mapErr g) fun r =>
      r = m.view (region.startBlock + lba) := by
  refine Prog.Triple.mapErr ?_
  rintro _ - rfl
  refine Prog.wp_bind.mpr (Prog.wp_ofExcept.mpr ⟨fun absolute habsolute => ?_, fun _ _ => trivial⟩)
  obtain ⟨rfl, -⟩ := validateRequest_bounds habsolute
  refine Prog.andThen_done (Prog.wp_bind.mpr (Prog.wp_perform.mpr ⟨?_, fun _ _ => trivial⟩))
  rintro r m' ⟨rfl, rfl | ⟨-, e, rfl⟩⟩
  · exact Prog.wp_pure.mpr ⟨trivial, rfl, readBack_one _ _⟩
  · exact Prog.wp_throw.mpr trivial

/-- What every turn of a loop over the indices below `n` keeps. -/
theorem sees_foldlM_range {step : β → ℕ → Prog Device ε β} {P : ℕ → β → Prop} {n : ℕ} {b : β}
    (h0 : P 0 b) (hstep : ∀ i b, i < n → P i b → Sees bb m (step b i) (P (i + 1))) :
    Sees bb m ((List.range n).foldlM step b) (P n) := by
  -- Generalised over where the loop starts, since the fold peels its list at the front.
  suffices hrun : ∀ count start b, start + count = n → P start b →
      Sees bb m ((List.range' start count).foldlM step b) (P n) by
    rw [List.range_eq_range']
    exact hrun n 0 b (Nat.zero_add n) h0
  intro count
  induction count with
  | zero =>
    intro start b hstart hb
    exact sees_pure (hstart ▸ hb)
  | succ count ih =>
    intro start b hstart hb
    exact (hstep start b (by omega) hb).bind fun b' hb' => ih (start + 1) b' (by omega) hb'

/-- The whole blocks an entry array takes. -/
def arrayBlocks (header : GptHeader) (blockBytes : ℕ) : ℕ :=
  (header.entryCount * header.entryBytes + (blockBytes - 1)) / blockBytes

/-- The entry array a header describes, as the region's device holds it. -/
def entryArray (contents : ℕ → Bytes) (region : BlockRegion) (header : GptHeader) : Bytes :=
  (readBack contents (region.startBlock + header.entryLba)
    (arrayBlocks header region.geometry.logicalBlockBytes)).take
    (header.entryCount * header.entryBytes)

theorem sees_readOneBlock : Sees bb m (readOneBlock region lba blockBytes) fun r =>
      r = m.view (region.startBlock + lba) :=
  sees_tryReserve.bind fun _ _ => sees_readBlock

theorem readBack_succ (contents : ℕ → Bytes) (start count : ℕ) :
    readBack contents start (count + 1) =
      readBack contents start count ++ contents (start + count) := by
  simp [readBack, List.range_succ]

theorem length_readBack {contents : ℕ → Bytes} (hcontents : ∀ n, (contents n).length = bb)
    (start count : ℕ) : (readBack contents start count).length = count * bb := by
  induction count with
  | zero => simp [readBack]
  | succ count ih => rw [readBack_succ, List.length_append, ih, hcontents, Nat.succ_mul]

/-- `read_entry_array` returns the array its header describes. -/
theorem sees_readEntryArray {header : GptHeader} {limits : GptLimits}
    (hbytes : blockBytes = region.geometry.logicalBlockBytes)
    (hpos : 0 < blockBytes) (hview : ∀ n, (m.view n).length = blockBytes) :
    Sees bb m (readEntryArray region header limits blockBytes) fun entries =>
      entries = entryArray m.view region header := by
  refine sees_ofOption.bind fun exactBytes hexact => sees_reject.bind fun _ _ =>
    sees_ofOption.bind fun padded hpadded => sees_tryReserve.bind fun _ _ => ?_
  obtain ⟨-, rfl⟩ := checkedMul_eq_some.mp hexact
  obtain ⟨-, rfl⟩ := checkedAdd_eq_some.mp hpadded
  -- After `i` turns the first `i` blocks of the buffer are read and the others are still zero.
  refine Sees.bind (P := fun stored => stored = readBack m.view
      (region.startBlock + header.entryLba) (arrayBlocks header blockBytes)) ?_ ?_
  · rw [← arrayBlocks, Nat.mul_div_cancel _ hpos]
    generalize arrayBlocks header blockBytes = blocks
    refine (sees_foldlM_range (P := fun i stored => stored =
      readBack m.view (region.startBlock + header.entryLba) i ++
        List.replicate ((blocks - i) * blockBytes) 0) ?_ ?_).mono ?_
    · simp [readBack]
    · rintro i stored hi rfl
      refine sees_ofOption.bind fun lba hlba => sees_ofOption.bind fun start hstart =>
        sees_ofOption.bind fun finish _ => sees_readBlock.bind fun bytes hblock => sees_pure ?_
      obtain ⟨-, rfl⟩ := checkedAdd_eq_some.mp hlba
      obtain ⟨-, rfl⟩ := checkedMul_eq_some.mp hstart
      have hrest : (blocks - i) * blockBytes = blockBytes + (blocks - (i + 1)) * blockBytes := by
        rw [show blocks - i = 1 + (blocks - (i + 1)) by omega, Nat.add_mul, Nat.one_mul]
      rw [hrest, List.replicate_add, splice_of_eq_append _ _ _ rfl (length_readBack hview _ i)
        (by simp [hblock, hview]), readBack_succ, hblock, Nat.add_assoc, List.append_assoc]
    · rintro stored rfl
      simp
  · rintro stored rfl
    exact sees_pure (by rw [entryArray, ← hbytes])

end

/-! ## Headers -/

section

variable {limits : GptLimits} {header primary backup : GptHeader} {lastLba blockBytes : ℕ}

/-- A parsed header names its own block and the other header's. -/
theorem parseHeader_spec {block : Bytes} {current other : ℕ} :
    ∀ header, parseHeader block current other limits blockBytes = .ok header →
      header.currentLba = current := by
  iterate 19 refine forall_bind_ok fun _ => ?_
  intro header h
  simp only [ok_rules, not_or, not_not] at h
  obtain ⟨_, ⟨hcurrent, -⟩, _, -, _, -, _, -, _, -, h⟩ := h
  cases h
  exact hcurrent

/-- The first header's array lies between that header and the usable range. -/
theorem validateHeaderPlacement_primary
    (h : validateHeaderPlacement header true lastLba blockBytes = .ok ()) :
    header.firstUsableLba ≤ header.lastUsableLba ∧ header.lastUsableLba < lastLba ∧
      header.currentLba < header.entryLba ∧
      header.entryLba + arrayBlocks header blockBytes ≤ header.firstUsableLba := by
  simp only [validateHeaderPlacement, ok_rules, if_true, not_or] at h
  obtain ⟨-, husable, _, ⟨-, rfl⟩, _, ⟨-, rfl⟩, _, ⟨-, rfl⟩, hplace⟩ := h
  unfold arrayBlocks
  omega

/-- The second header's array lies between the usable range and that header. -/
theorem validateHeaderPlacement_backup
    (h : validateHeaderPlacement header false lastLba blockBytes = .ok ()) :
    header.lastUsableLba < header.entryLba ∧
      header.entryLba + arrayBlocks header blockBytes ≤ header.currentLba := by
  simp only [validateHeaderPlacement, ok_rules, Bool.false_eq_true, if_false, not_or] at h
  obtain ⟨-, -, _, ⟨-, rfl⟩, _, ⟨-, rfl⟩, _, ⟨-, rfl⟩, hplace⟩ := h
  unfold arrayBlocks
  omega

/-- The two headers describe one table. -/
structure Agree (primary backup : GptHeader) : Prop where
  current : primary.currentLba = backup.backupLba
  other : primary.backupLba = backup.currentLba
  firstUsable : primary.firstUsableLba = backup.firstUsableLba
  lastUsable : primary.lastUsableLba = backup.lastUsableLba
  diskGuid : primary.diskGuid = backup.diskGuid
  entryCount : primary.entryCount = backup.entryCount
  entryBytes : primary.entryBytes = backup.entryBytes
  entryCrc32 : primary.entryCrc32 = backup.entryCrc32

/-- The two headers agree in every field that is compared. -/
theorem agree_of_validateConsistency (h : validateConsistency primary backup = .ok ()) :
    Agree primary backup := by
  simp only [validateConsistency, ok_rules, not_or, not_not] at h
  obtain ⟨hcurrent, hbackup, hfirst, hlast, hguid, hcount, hbytes, hcrc, -⟩ := h
  exact ⟨hcurrent, hbackup, hfirst, hlast, hguid, hcount, hbytes, hcrc⟩

end

/-! ## Partitions -/

section

variable {limits : GptLimits} {header : GptHeader} {entries : Bytes}
  {partitions partitions' : List GptPartition}

/-- The blocks of a partition. -/
def GptPartition.Holds (partition : GptPartition) (block : ℕ) : Prop :=
  partition.firstLba ≤ block ∧ block ≤ partition.lastLba

/-- A partition has blocks, and all of them are usable. -/
def GptPartition.Usable (partition : GptPartition) (first last : ℕ) : Prop :=
  partition.firstLba ≤ partition.lastLba ∧ first ≤ partition.firstLba ∧ partition.lastLba ≤ last

/-- What the entries taken over so far satisfy. -/
def Collected (header : GptHeader) (partitions : List GptPartition) : Prop :=
  (∀ partition ∈ partitions, partition.Usable header.firstUsableLba header.lastUsableLba) ∧
    (partitions.map (·.uniqueGuid)).Nodup

/-- Each further entry is unused or a new partition. -/
theorem Collected.parseEntry {index : ℕ} (h : Collected header partitions)
    (hentry : parseEntry entries header limits partitions index = .ok partitions') :
    Collected header partitions' := by
  simp only [Gpt.parseEntry, ok_rules] at hentry
  obtain ⟨_, -, _, -, _, -, hentry⟩ := hentry
  split at hentry
  · obtain ⟨_, -, hentry⟩ := bind_eq_ok.mp hentry
    cases hentry
    exact h
  · simp only [ok_rules, not_or, not_lt] at hentry
    obtain ⟨_, -, guid, -, firstLba, -, lastLba, -, _, ⟨-, hrange⟩, _, hfresh, hentry⟩ := hentry
    obtain ⟨name, -, attributes, -, hentry⟩ := hentry
    cases hentry
    refine ⟨?_, ?_⟩
    · intro partition hpartition
      obtain hpartition | hpartition := List.mem_append.mp hpartition
      · exact h.1 partition hpartition
      · rw [List.mem_singleton.mp hpartition]
        exact hrange
    · rw [List.map_append]
      refine List.nodup_append.mpr ⟨h.2, List.nodup_singleton _, ?_⟩
      rintro taken htaken _ hguid rfl
      obtain ⟨partition, hpartition, htaken⟩ := List.mem_map.mp htaken
      refine hfresh (List.any_eq_true.mpr ⟨partition, hpartition, ?_⟩)
      simpa [htaken] using hguid

/-- Partitions that do not overlap their neighbours do not overlap at all, since each has a
block. -/
theorem pairwise_of_not_overlapping (hnonempty : ∀ p ∈ partitions, p.firstLba ≤ p.lastLba)
    (h : overlapping partitions = false) :
    partitions.Pairwise fun p q => p.lastLba < q.firstLba := by
  induction partitions using overlapping.induct with
  | case1 first second rest ih =>
    rw [overlapping, Bool.or_eq_false_iff, decide_eq_false_iff_not, not_le] at h
    have hrest := ih (fun p hp => hnonempty p (List.mem_cons_of_mem _ hp)) h.2
    refine List.pairwise_cons.mpr ⟨fun p hp => ?_, hrest⟩
    obtain rfl | hp := List.mem_cons.mp hp
    · exact h.1
    · have hlater := List.rel_of_pairwise_cons hrest hp
      have hsecond := hnonempty second (by simp)
      omega
  | case2 partitions hshort =>
    match partitions, hshort with
    | [], _ => exact .nil
    | [p], _ => exact List.pairwise_singleton _ p
    | p :: q :: rest, hshort => exact absurd rfl (hshort p q rest)

/-- Ordering loses no partition and finds no overlap. -/
theorem orderPartitions_spec (h : orderPartitions partitions = .ok partitions') :
    partitions'.Perm partitions ∧ overlapping partitions' = false := by
  simp only [orderPartitions, ok_rules, Bool.not_eq_true] at h
  obtain ⟨_, hoverlap, h⟩ := h
  cases h
  exact ⟨List.perm_insertionSort _ _, hoverlap⟩

end

/-! ## Discovery -/

section

variable {region : BlockRegion} {limits : GptLimits} {disk : GptDisk} {contents : ℕ → Bytes}
  {bb : ℕ} {m : Media ℕ Bytes} {header : GptHeader}

/-- The last block of a region. -/
def lastBlock (region : BlockRegion) : ℕ := region.blockCount - 1

/-- The blocks that hold the table itself: the protective record, both headers and both arrays. -/
def MetadataBlock (region : BlockRegion) (primary backup : GptHeader) (block : ℕ) : Prop :=
  block = 0 ∨ block = 1 ∨ block = lastBlock region ∨
    ∃ header ∈ [primary, backup], header.entryLba ≤ block ∧
      block < header.entryLba + arrayBlocks header region.geometry.logicalBlockBytes

/-- A discovered table: the two copies it was read from, where they lie, and what its partitions
are. `contents` is the device, block by block. -/
structure Discovered (region : BlockRegion) (limits : GptLimits) (contents : ℕ → Bytes)
    (disk : GptDisk) (primary backup : GptHeader) : Prop where
  primaryHeader : parseHeader (contents (region.startBlock + 1)) 1 (lastBlock region) limits
    region.geometry.logicalBlockBytes = .ok primary
  backupHeader : parseHeader (contents (region.startBlock + lastBlock region)) (lastBlock region) 1
    limits region.geometry.logicalBlockBytes = .ok backup
  agree : Agree primary backup
  entries : entryArray contents region primary = entryArray contents region backup
  checksum : (Checksum.crc32 (entryArray contents region primary)).toNat = primary.entryCrc32
  diskGuid : disk.diskGuid = primary.diskGuid
  firstUsable : disk.firstUsableLba = primary.firstUsableLba
  lastUsable : disk.lastUsableLba = primary.lastUsableLba
  primaryArray : 1 < primary.entryLba ∧ primary.entryLba +
    arrayBlocks primary region.geometry.logicalBlockBytes ≤ disk.firstUsableLba
  usable : disk.firstUsableLba ≤ disk.lastUsableLba
  backupArray : disk.lastUsableLba < backup.entryLba ∧ backup.entryLba +
    arrayBlocks backup region.geometry.logicalBlockBytes ≤ lastBlock region
  inside : lastBlock region < region.blockCount
  partition : ∀ p ∈ disk.partitions, p.Usable disk.firstUsableLba disk.lastUsableLba
  sorted : disk.partitions.Pairwise fun p q => p.firstLba < q.firstLba
  disjoint : disk.partitions.Pairwise fun p q => ∀ block, ¬ (p.Holds block ∧ q.Holds block)
  distinct : (disk.partitions.map (·.uniqueGuid)).Nodup
  clear : ∀ p ∈ disk.partitions, ∀ block, p.Holds block →
    block < region.blockCount ∧ ¬ MetadataBlock region primary backup block

theorem sees_readCheckedArray {blockBytes : ℕ}
    (hbytes : blockBytes = region.geometry.logicalBlockBytes) (hpos : 0 < blockBytes)
    (hview : ∀ n, (m.view n).length = blockBytes) :
    Sees bb m (readCheckedArray region header limits blockBytes) fun entries =>
      entries = entryArray m.view region header ∧
        (Checksum.crc32 entries).toNat = header.entryCrc32 := by
  refine (sees_readEntryArray hbytes hpos hview).bind fun entries hentries =>
    sees_reject.bind fun _ hchecksum => sees_pure ⟨hentries, not_not.mp hchecksum⟩

theorem sees_parsePartitions {entries : Bytes} :
    Sees bb m (parsePartitions entries header limits) fun partitions =>
      Collected header partitions ∧ overlapping partitions = false := by
  refine sees_tryReserve.bind fun _ _ => sees_ofExcept.mono fun partitions h => ?_
  obtain ⟨collected, hcollected, horder⟩ := bind_eq_ok.mp h
  obtain ⟨hperm, hoverlap⟩ := orderPartitions_spec horder
  have hall : Collected header collected := by
    refine foldlM_range_ok_induction (P := fun _ => Collected header) hcollected ?_ ?_
    · exact ⟨by simp, by simp⟩
    · exact fun _ _ _ _ hs hstep => hs.parseEntry hstep
  refine ⟨⟨fun p hp => hall.1 p (hperm.mem_iff.mp hp), ?_⟩, hoverlap⟩
  exact (hperm.map _).nodup_iff.mpr hall.2

/-- What is discovered is what the medium says. -/
theorem sees_discover (hview : ∀ n, (m.view n).length = region.geometry.logicalBlockBytes) :
    Sees bb m (discover region limits) fun disk =>
      ∃ primary backup, Discovered region limits m.view disk primary backup := by
  refine sees_ofExcept.bind fun _ _ => sees_reject.bind fun _ hgeometry =>
    sees_ofOption.bind fun lastLba hlast => ?_
  simp only [BlockRegion.info, not_or, not_lt] at hgeometry
  obtain ⟨-, hcount, hbytes⟩ := hgeometry
  obtain rfl : lastLba = lastBlock region := (checkedSub_eq_some.mp hlast).2.symm
  refine sees_readOneBlock.bind fun _ _ => sees_ofExcept.bind fun _ _ => ?_
  refine sees_readOneBlock.bind fun _ hblock => sees_ofExcept.bind fun primary hprimary => ?_
  subst hblock
  refine sees_readOneBlock.bind fun _ hblock => sees_ofExcept.bind fun backup hbackup => ?_
  subst hblock
  refine sees_ofExcept.bind fun _ hplaced => sees_ofExcept.bind fun _ hplaced' =>
    sees_ofExcept.bind fun _ hagree => ?_
  have hpos : 0 < region.geometry.logicalBlockBytes := Nat.lt_of_lt_of_le (by decide) hbytes
  refine (sees_readCheckedArray rfl hpos hview).bind fun entries hentries =>
    (sees_readCheckedArray rfl hpos hview).bind fun entries' hentries' =>
      sees_reject.bind fun _ hsame => ?_
  have hprimaryLba := parseHeader_spec _ hprimary
  have hbackupLba := parseHeader_spec _ hbackup
  have hagree := agree_of_validateConsistency hagree
  have hplaced := validateHeaderPlacement_primary hplaced
  have hplaced' := validateHeaderPlacement_backup hplaced'
  refine sees_parsePartitions.bind fun partitions hpartitions => sees_pure ⟨primary, backup, ?_⟩
  obtain ⟨⟨husable, hdistinct⟩, hoverlap⟩ := hpartitions
  have hordered := pairwise_of_not_overlapping (fun p hp => (husable p hp).1) hoverlap
  have hinfo : region.info.blockBytes = region.geometry.logicalBlockBytes := rfl
  rw [hprimaryLba, hinfo] at hplaced
  rw [hbackupLba, ← hagree.lastUsable] at hplaced'
  have hinside : lastBlock region < region.blockCount := by
    unfold lastBlock
    omega
  constructor
  case primaryHeader => exact hprimary
  case backupHeader => exact hbackup
  case agree => exact hagree
  case entries => rw [← hentries.1, ← hentries'.1, not_not.mp hsame]
  case checksum => rw [← hentries.1, hentries.2]
  case diskGuid => rfl
  case firstUsable => rfl
  case lastUsable => rfl
  case primaryArray => exact hplaced.2.2
  case usable => exact hplaced.1
  case backupArray => exact hplaced'
  case inside => exact hinside
  case partition => exact husable
  case sorted =>
    refine hordered.imp_of_mem fun hp _ hpq => ?_
    have := (husable _ hp).1
    omega
  case disjoint =>
    refine hordered.imp fun hpq block hboth => ?_
    obtain ⟨⟨-, hp⟩, hq, -⟩ := hboth
    omega
  case distinct => exact hdistinct
  case clear =>
    intro p hp block hblock
    obtain ⟨hnonempty, hfirst, hlast⟩ := husable p hp
    obtain ⟨hlow, hhigh⟩ := hblock
    refine ⟨by omega, ?_⟩
    rintro (rfl | rfl | rfl | ⟨header, hheader, hin⟩)
    · omega
    · omega
    · omega
    · -- The arrays lie on both sides of the usable range.
      simp only [List.mem_cons, List.not_mem_nil, or_false] at hheader
      obtain rfl | rfl := hheader <;> omega

/-- Discovery over any device: no request leaves the region, and a table that is returned is what
both of its copies say. -/
theorem discover_sound (hregion : region.Granted) {bb : ℕ} {m m' : Media ℕ Bytes}
    (hview : ∀ n, (m.view n).length = region.geometry.logicalBlockBytes) :
    (discover region limits).Calls (ReadsInside region) ∧
      ((discover region limits).Runs (deviceEnv bb true) m (.done disk) m' →
        m' = m ∧ ∃ primary backup, Discovered region limits m.view disk primary backup) := by
  refine ⟨calls_discover hregion, fun hrun => ?_⟩
  exact (hrun.of_wp (sees_discover hview m trivial rfl)).2

end

/-! ### A small table -/

/-- The bytes in order, padded with zeros to one block. -/
def sampleBlock (bytes : Bytes) : Bytes := bytes ++ List.replicate (512 - bytes.length) 0

/-- Two partitions, that take block 4 and block 3. -/
def sampleEntries : Bytes :=
  [4, 3].flatMap fun block => List.replicate 16 1 ++ List.replicate 16 (.ofNat block) ++
    leBytes 8 block ++ leBytes 8 block ++ List.replicate 80 0

/-- A header of the seven-block table, with the given checksum of its own. -/
def sampleHeader (checksum current other entryLba : ℕ) : Bytes :=
  gptSignature ++ leBytes 4 gptRevision10 ++ leBytes 4 92 ++ leBytes 4 checksum ++ leBytes 4 0 ++
    leBytes 8 current ++ leBytes 8 other ++ leBytes 8 3 ++ leBytes 8 4 ++ List.replicate 16 7 ++
    leBytes 8 entryLba ++ leBytes 4 2 ++ leBytes 4 128 ++
    leBytes 4 (Checksum.crc32 sampleEntries).toNat

def sealedHeader (current other entryLba : ℕ) : Bytes :=
  sampleHeader (Checksum.crc32 (sampleHeader 0 current other entryLba)).toNat current other entryLba

/-- The protective record of a device of seven blocks. -/
def sampleMbr : Bytes :=
  List.replicate 446 0 ++ [0, 0, 0, 0, 0xee, 0, 0, 0] ++ leBytes 4 1 ++ leBytes 4 6 ++
    List.replicate 48 0 ++ [0x55, 0xaa]

/-- A device of seven blocks with two partitions. -/
def sampleContents (block : ℕ) : Bytes :=
  match block with
  | 0 => sampleBlock sampleMbr
  | 1 => sampleBlock (sealedHeader 1 6 2)
  | 2 => sampleBlock sampleEntries
  | 5 => sampleBlock sampleEntries
  | 6 => sampleBlock (sealedHeader 6 1 5)
  | _ => sampleBlock []

def sampleRegion : BlockRegion where
  startBlock := 0
  blockCount := 7
  access := .readOnly
  limits := ⟨8, 4096, 1⟩
  geometry := ⟨512, 7, 1, false, false⟩

def sampleLimits : GptLimits := ⟨4, 512, 4⟩

def sampleDisk : GptDisk where
  diskGuid := ⟨List.replicate 16 7⟩
  firstUsableLba := 3
  lastUsableLba := 4
  partitions := [3, 4].map fun block =>
    { typeGuid := ⟨List.replicate 16 1⟩, uniqueGuid := ⟨List.replicate 16 (.ofNat block)⟩,
      firstLba := block, lastLba := block, attributes := 0, name := List.replicate 36 0,
      nameUnits := 0 }

theorem run_sample : ((discover sampleRegion sampleLimits).run (reliable 512)
    ⟨sampleContents, []⟩).1 = .done sampleDisk := by
  decide +kernel

theorem length_sampleContents (n : ℕ) : (sampleContents n).length = 512 := by
  unfold sampleContents
  split <;> decide +kernel

theorem discovered_sample : sampleDisk.partitions.length = 2 ∧
    ∃ primary backup, Discovered sampleRegion sampleLimits sampleContents sampleDisk primary
      backup := by
  have hgranted : sampleRegion.Granted := ⟨⟨512, 7, 1, false, false⟩, 0, 7, .readOnly, ⟨8, 4096, 1⟩,
    by decide⟩
  have hrun := Prog.runs_run (reliable_answer 512 true) (discover sampleRegion sampleLimits)
    ⟨sampleContents, []⟩
  rw [run_sample] at hrun
  have hview : ∀ n, (Media.view ⟨sampleContents, []⟩ n).length = 512 := length_sampleContents
  exact ⟨rfl, ((discover_sound hgranted hview).2 hrun).2⟩

end Troe.Gpt
