import Troe.Device.Block

/-!
# Subregions

A region can be narrowed again and again, each time relative to the region before. Every region of
such a chain lies inside the one it was taken from, and only a writable region has a writable
subregion. A request through the last region therefore stays inside all of them, whatever device is
behind it and whatever geometry it reports from one call to the next.
-/

namespace Troe.Block

open Lib

namespace BlockRegion

variable {geometry : BlockGeometry} {startBlock blockCount : ℕ} {access : BlockAccess}
  {limits : BlockLimits} {region : BlockRegion}

/-- `BlockRegion::subregion`, over a device that now reports `geometry`. -/
def subregion (region : BlockRegion) (geometry : BlockGeometry) (startBlock blockCount : ℕ)
    (access : BlockAccess) (limits : BlockLimits) : Except BlockError BlockRegion := do
  rejectIf (region.access = .readOnly ∧ access = .readWrite) .readOnly
  let relativeEnd ← okOr (checkedAdd 64 startBlock blockCount) .outOfBounds
  rejectIf (blockCount = 0 ∨ region.blockCount < relativeEnd) .outOfBounds
  let absolute ← okOr (checkedAdd 64 region.startBlock startBlock) .outOfBounds
  new geometry absolute blockCount access limits

/-- What `new` grants. -/
theorem new_ok (h : new geometry startBlock blockCount access limits = .ok region) :
    region = ⟨startBlock, blockCount, access, limits, geometry⟩ ∧
      startBlock + blockCount < 2 ^ 64 := by
  obtain ⟨-, -, hend⟩ : region.geometry.logicalBlockBytes ≤ maxLogicalBlockBytes ∧ _ :=
    Granted.bounds ⟨geometry, startBlock, blockCount, access, limits, h⟩
  obtain rfl : region = ⟨startBlock, blockCount, access, limits, geometry⟩ := by
    unfold new at h
    simp only [ok_rules] at h
    obtain ⟨-, -, h⟩ := h
    split at h
    · split at h
      · cases h
      · cases h
        rfl
    · cases h
  exact ⟨rfl, hend⟩

/-- The first region lies inside the second and has no authority beyond it. -/
structure Within (inner outer : BlockRegion) : Prop where
  start : outer.startBlock ≤ inner.startBlock
  finish : inner.startBlock + inner.blockCount ≤ outer.startBlock + outer.blockCount
  access : inner.access = .readWrite → outer.access = .readWrite

theorem Within.refl (region : BlockRegion) : region.Within region where
  start := le_rfl
  finish := le_rfl
  access := id

theorem Within.trans {a b c : BlockRegion} (hab : a.Within b) (hbc : b.Within c) : a.Within c where
  start := Nat.le_trans hbc.start hab.start
  finish := Nat.le_trans hab.finish hbc.finish
  access h := hbc.access (hab.access h)

/-- A subregion lies inside its region. -/
theorem within_of_subregion {child : BlockRegion}
    (h : region.subregion geometry startBlock blockCount access limits = .ok child) :
    child.Within region := by
  simp only [subregion, ok_rules, not_or, not_and] at h
  obtain ⟨⟨⟩, haccess, _, ⟨-, rfl⟩, ⟨⟩, ⟨-, hbound⟩, _, ⟨-, rfl⟩, hnew⟩ := h
  obtain ⟨rfl, -⟩ := new_ok hnew
  refine ⟨Nat.le_add_right _ _, ?_, ?_⟩
  · show region.startBlock + startBlock + blockCount ≤ region.startBlock + region.blockCount
    omega
  · rintro rfl
    cases hregion : region.access with
    | readOnly => exact absurd rfl (haccess hregion)
    | readWrite => rfl

/-! ## Chains -/

/-- The regions from the last subregion back to a root region. -/
inductive Chain : List BlockRegion → Prop where
  | root {geometry : BlockGeometry} {startBlock blockCount : ℕ} {access : BlockAccess}
      {limits : BlockLimits} {region : BlockRegion}
      (h : new geometry startBlock blockCount access limits = .ok region) : Chain [region]
  | subregion {region child : BlockRegion} {ancestors : List BlockRegion}
      {geometry : BlockGeometry} {startBlock blockCount : ℕ} {access : BlockAccess}
      {limits : BlockLimits} (hchain : Chain (region :: ancestors))
      (h : region.subregion geometry startBlock blockCount access limits = .ok child) :
      Chain (child :: region :: ancestors)

/-- The last region of a chain lies inside every region of it. -/
theorem Chain.within {ancestors : List BlockRegion}
    (h : Chain (region :: ancestors)) : ∀ outer ∈ region :: ancestors, region.Within outer := by
  generalize hchain : region :: ancestors = chain at h
  induction h generalizing region ancestors with
  | root h =>
    cases hchain
    simp [Within.refl]
  | @subregion parent child rest _ _ _ _ _ _ hsub ih =>
    cases hchain
    have hchild := within_of_subregion hsub
    intro outer houter
    rcases List.mem_cons.mp houter with rfl | houter
    · exact Within.refl _
    · exact hchild.trans (ih rfl outer houter)

theorem Chain.addressable {chain : List BlockRegion} (h : Chain chain) :
    ∀ region ∈ chain, region.startBlock + region.blockCount < 2 ^ 64 := by
  induction h with
  | root h =>
    obtain ⟨rfl, hend⟩ := new_ok h
    simpa using hend
  | subregion _ hsub ih =>
    simp only [BlockRegion.subregion, ok_rules] at hsub
    obtain ⟨-, -, _, -, -, -, _, -, hnew⟩ := hsub
    obtain ⟨rfl, hend⟩ := new_ok hnew
    exact List.forall_mem_cons.mpr ⟨hend, ih⟩

/-! ## Requests -/

/-- An admitted request is the translation of what was asked for, inside the region and its limits
and with a buffer of exactly its length. -/
theorem validateRequest_ok {bufferBytes absolute : ℕ}
    (h : region.validateRequest startBlock blockCount bufferBytes = .ok absolute) :
    absolute = region.startBlock + startBlock ∧
      (blockCount ≤ region.limits.maxTransferBlocks ∧
        blockCount * region.geometry.logicalBlockBytes ≤ region.limits.maxTransferBytes) ∧
      startBlock + blockCount ≤ region.blockCount ∧
      bufferBytes = blockCount * region.geometry.logicalBlockBytes := by
  unfold validateRequest at h
  dsimp only at h
  -- Each rejection is one branch; what is left is the last address computation.
  split at h
  · cases h
  split at h
  · cases h
  split at h
  next finish hfinish =>
    split at h
    · cases h
    next hbound =>
    split at h
    next bytes hbytes =>
      split at h
      · cases h
      next hlimits =>
      split at h
      · cases h
      next hbuffer =>
      split at h
      next absolute' habsolute =>
        cases h
        rw [checkedAdd_eq_some] at hfinish habsolute
        rw [checkedMul_eq_some] at hbytes
        exact ⟨habsolute.2.symm, by omega, by omega, by omega⟩
      · cases h
    · cases h
  · cases h

/-- The blocks from `absolute` on lie inside every region of the chain, none of which wraps. -/
def Confined (chain : List BlockRegion) (absolute blockCount : ℕ) : Prop :=
  ∀ region ∈ chain, region.startBlock ≤ absolute ∧
    absolute + blockCount ≤ region.startBlock + region.blockCount ∧
    region.startBlock + region.blockCount < 2 ^ 64

/-- **Block region confinement.** Through the last region of a chain, a read or a write is rejected
without a call to the device, or is one call for exactly the requested blocks, which lie inside
every region of the chain, with a buffer of exactly their length. No write and no flush is made when
a region of the chain is read-only. -/
theorem chain_confines {region : BlockRegion} {ancestors : List BlockRegion}
    (hchain : Chain (region :: ancestors)) :
    (∀ startBlock blockCount bufferBytes,
      (∃ error, region.readBlocks startBlock blockCount bufferBytes = .throw error) ∨
      (region.readBlocks startBlock blockCount bufferBytes =
          .call (.readBlocks (region.startBlock + startBlock) blockCount) Prog.ofExcept ∧
        Confined (region :: ancestors) (region.startBlock + startBlock) blockCount ∧
        bufferBytes = blockCount * region.geometry.logicalBlockBytes)) ∧
    (∀ startBlock blockCount source forceUnitAccess,
      (∃ error, region.writeBlocks startBlock blockCount source forceUnitAccess = .throw error) ∨
      (region.writeBlocks startBlock blockCount source forceUnitAccess =
          .call (.writeBlocks (region.startBlock + startBlock) blockCount source forceUnitAccess)
            Prog.ofExcept ∧
        Confined (region :: ancestors) (region.startBlock + startBlock) blockCount ∧
        source.length = blockCount * region.geometry.logicalBlockBytes ∧
        ∀ outer ∈ region :: ancestors, outer.access = .readWrite)) ∧
    ((∃ error, region.flush = .throw error) ∨
      (region.flush = .call .flush Prog.ofExcept ∧
        ∀ outer ∈ region :: ancestors, outer.access = .readWrite)) := by
  have hwithin := hchain.within
  have hconfined : ∀ startBlock blockCount, startBlock + blockCount ≤ region.blockCount →
      Confined (region :: ancestors) (region.startBlock + startBlock) blockCount := by
    intro startBlock blockCount hbound outer houter
    obtain ⟨hstart, hfinish, -⟩ := hwithin outer houter
    exact ⟨by omega, by omega, hchain.addressable outer houter⟩
  refine ⟨?_, ?_, ?_⟩
  · intro startBlock blockCount bufferBytes
    cases hvalid : region.validateRequest startBlock blockCount bufferBytes with
    | error error => exact .inl ⟨error, by rw [readBlocks, hvalid]; rfl⟩
    | ok absolute =>
      obtain ⟨rfl, -, hbound, hbytes⟩ := validateRequest_ok hvalid
      exact .inr ⟨by rw [readBlocks, hvalid]; rfl, hconfined _ _ hbound, hbytes⟩
  · intro startBlock blockCount source forceUnitAccess
    by_cases haccess : region.access = .readWrite
    · by_cases hforce : forceUnitAccess ∧ ¬ region.geometry.supportsForceUnitAccess
      · refine .inl ⟨.unsupported, ?_⟩
        simp only [writeBlocks, Prog.reject, if_neg (not_not_intro haccess), if_pos hforce]
        rfl
      · cases hvalid : region.validateRequest startBlock blockCount source.length with
        | error error =>
          refine .inl ⟨error, ?_⟩
          simp only [writeBlocks, Prog.reject, if_neg (not_not_intro haccess), if_neg hforce,
            hvalid]
          rfl
        | ok absolute =>
          obtain ⟨rfl, -, hbound, hbytes⟩ := validateRequest_ok hvalid
          refine .inr ⟨?_, hconfined _ _ hbound, hbytes, ?_⟩
          · simp only [writeBlocks, Prog.reject, if_neg (not_not_intro haccess), if_neg hforce,
              hvalid]
            rfl
          · exact fun outer houter => (hwithin outer houter).access haccess
    · refine .inl ⟨.readOnly, ?_⟩
      simp only [writeBlocks, Prog.reject, if_pos haccess]
      rfl
  · by_cases haccess : region.access = .readWrite
    · by_cases hflush : region.geometry.supportsFlush
      · refine .inr ⟨?_, fun outer houter => (hwithin outer houter).access haccess⟩
        simp only [flush, Prog.reject, if_neg (not_not_intro haccess),
          if_neg (not_not_intro hflush)]
        rfl
      · refine .inl ⟨.unsupported, ?_⟩
        simp only [flush, Prog.reject, if_neg (not_not_intro haccess), if_pos hflush]
        rfl
    · refine .inl ⟨.readOnly, ?_⟩
      simp only [flush, Prog.reject, if_pos haccess]
      rfl

/-- A disk of 128 blocks. -/
def sampleGeometry : BlockGeometry := ⟨512, 128, 1, true, false⟩

/-- The writable blocks 16 to 79 of the disk. -/
def sampleRoot : BlockRegion := ⟨16, 64, .readWrite, ⟨8, 4096, 1⟩, sampleGeometry⟩

/-- Its read-only blocks 8 to 23. -/
def sampleChild : BlockRegion := ⟨24, 16, .readOnly, ⟨8, 4096, 1⟩, sampleGeometry⟩

theorem sampleRoot_granted :
    new sampleGeometry 16 64 .readWrite ⟨8, 4096, 1⟩ = .ok sampleRoot := by rfl

theorem sampleChild_granted : sampleRoot.subregion sampleGeometry 8 16 .readOnly ⟨8, 4096, 1⟩ =
    .ok sampleChild := by rfl

theorem chain_confines_sample :
    Chain [sampleChild, sampleRoot] ∧
      sampleChild.readBlocks 2 4 2048 = .call (.readBlocks 26 4) Prog.ofExcept ∧
      Confined [sampleChild, sampleRoot] 26 4 ∧ ∃ error, sampleChild.flush = .throw error := by
  have hchain : Chain [sampleChild, sampleRoot] :=
    .subregion (.root sampleRoot_granted) sampleChild_granted
  obtain ⟨hread, -, hflush⟩ := chain_confines hchain
  refine ⟨hchain, rfl, ?_, ?_⟩
  · rcases hread 2 4 2048 with ⟨error, herror⟩ | ⟨-, hconfined, -⟩
    · cases herror
    · exact hconfined
  · rcases hflush with herror | ⟨-, haccess⟩
    · exact herror
    · cases haccess sampleChild List.mem_cons_self

/-! ## Transfer ceilings -/

/-- The blocks one device call transfers. -/
def transferred : DeviceCall → ℕ
  | .readBlocks _ blockCount | .writeBlocks _ blockCount _ _ => blockCount
  | .flush | .tryReserve _ => 0

/-- A device call through the first region transfers no more than any region of the chain may. -/
def UnderCeilings (region : BlockRegion) (ancestors : List BlockRegion) (call : DeviceCall) : Prop :=
  ∀ outer ∈ region :: ancestors, transferred call ≤ outer.limits.maxTransferBlocks ∧
    transferred call * region.geometry.logicalBlockBytes ≤ outer.limits.maxTransferBytes

/-- The first region may transfer no more than the second. -/
def Narrows (inner outer : BlockRegion) : Prop :=
  inner.limits.maxTransferBlocks ≤ outer.limits.maxTransferBlocks ∧
    inner.limits.maxTransferBytes ≤ outer.limits.maxTransferBytes

instance : IsTrans BlockRegion Narrows where
  trans _ _ _ hab hbc := ⟨hab.1.trans hbc.1, hab.2.trans hbc.2⟩

/-- Chains of subregion calls that ask for no larger limits than the region has. -/
inductive NarrowChain : List BlockRegion → Prop where
  | root {region : BlockRegion} (h : Chain [region]) : NarrowChain [region]
  | subregion {region child : BlockRegion} {ancestors : List BlockRegion}
      {geometry : BlockGeometry} {startBlock blockCount : ℕ} {access : BlockAccess}
      {limits : BlockLimits} (hchain : NarrowChain (region :: ancestors))
      (h : region.subregion geometry startBlock blockCount access limits = .ok child)
      (hlimits : limits.maxTransferBlocks ≤ region.limits.maxTransferBlocks ∧
        limits.maxTransferBytes ≤ region.limits.maxTransferBytes) :
      NarrowChain (child :: region :: ancestors)

/-- A subregion is granted the limits it was asked for with. -/
theorem NarrowChain.narrows {chain : List BlockRegion} (h : NarrowChain chain) :
    chain.IsChain Narrows := by
  induction h with
  | root => exact .singleton _
  | subregion _ h hlimits ih =>
    simp only [BlockRegion.subregion, ok_rules] at h
    obtain ⟨-, -, _, -, -, -, _, -, hnew⟩ := h
    obtain ⟨rfl, -⟩ := new_ok hnew
    exact .cons_cons hlimits ih

/-- An admitted request is under all ceilings of a chain whose ceilings never grow. -/
theorem underCeilings_of_ok {ancestors : List BlockRegion} {bufferBytes absolute : ℕ}
    {call : DeviceCall} (hnarrow : (region :: ancestors).IsChain Narrows)
    (hvalid : region.validateRequest startBlock blockCount bufferBytes = .ok absolute)
    (hcall : transferred call = blockCount) : UnderCeilings region ancestors call := by
  obtain ⟨-, ⟨hblocks, hbytes⟩, -⟩ := validateRequest_ok hvalid
  have hsmallest := (List.pairwise_cons.mp (List.isChain_iff_pairwise.mp hnarrow)).1
  unfold UnderCeilings
  rw [hcall]
  refine List.forall_mem_cons.mpr ⟨⟨hblocks, hbytes⟩, fun outer houter => ?_⟩
  exact ⟨hblocks.trans (hsmallest outer houter).1, hbytes.trans (hsmallest outer houter).2⟩

/-- **Inherited transfer ceilings.** When no subregion of a chain is asked for with larger limits than
its region has, no request through the last one transfers more than the smallest ceiling of the
chain. -/
theorem chain_bounds_transfers {region : BlockRegion} {ancestors : List BlockRegion}
    (h : NarrowChain (region :: ancestors)) :
    (∀ startBlock blockCount bufferBytes,
      (region.readBlocks startBlock blockCount bufferBytes).Calls (UnderCeilings region ancestors)) ∧
    ∀ startBlock blockCount source forceUnitAccess,
      (region.writeBlocks startBlock blockCount source forceUnitAccess).Calls
        (UnderCeilings region ancestors) := by
  have hnarrow := h.narrows
  refine ⟨fun startBlock blockCount bufferBytes => ?_,
    fun startBlock blockCount source forceUnitAccess => ?_⟩
  · refine Prog.calls_ofExcept_bind fun absolute hvalid => ?_
    refine (Prog.calls_perform ?_).bind fun _ => Prog.calls_ofExcept _
    exact underCeilings_of_ok hnarrow hvalid rfl
  · refine (Prog.calls_reject _ _).bind fun _ => (Prog.calls_reject _ _).bind fun _ => ?_
    refine Prog.calls_ofExcept_bind fun absolute hvalid => ?_
    refine (Prog.calls_perform ?_).bind fun _ => Prog.calls_ofExcept _
    exact underCeilings_of_ok hnarrow hvalid rfl

theorem chain_bounds_transfers_sample :
    NarrowChain [sampleChild, sampleRoot] ∧
      (sampleChild.readBlocks 2 4 2048).Calls (UnderCeilings sampleChild [sampleRoot]) := by
  have hnarrow : NarrowChain [sampleChild, sampleRoot] :=
    .subregion (.root (.root sampleRoot_granted)) sampleChild_granted ⟨by decide, by decide⟩
  exact ⟨hnarrow, (chain_bounds_transfers hnarrow).1 2 4 2048⟩

/-- A region with transfers of one block has a subregion with transfers of eight. -/
theorem subregion_widens_transfers :
    ∃ region child, Chain [child, region] ∧ region.limits.maxTransferBlocks = 1 ∧
      child.readBlocks 0 8 4096 = .call (.readBlocks 24 8) Prog.ofExcept ∧
      ¬ UnderCeilings child [region] (.readBlocks 24 8) := by
  have hroot : new sampleGeometry 16 64 .readWrite ⟨1, 512, 1⟩ =
      .ok ⟨16, 64, .readWrite, ⟨1, 512, 1⟩, sampleGeometry⟩ := by rfl
  have hchild : subregion ⟨16, 64, .readWrite, ⟨1, 512, 1⟩, sampleGeometry⟩ sampleGeometry 8 16
      .readOnly ⟨8, 4096, 1⟩ = .ok sampleChild := by rfl
  refine ⟨_, sampleChild, .subregion (.root hroot) hchild, rfl, rfl, fun hunder => ?_⟩
  exact absurd (hunder _ (.tail _ (.head _))).1 (by decide)

end BlockRegion

end Troe.Block
