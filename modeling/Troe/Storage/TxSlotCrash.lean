import Troe.Storage.TxSlotRecord

/-!
# Crash consistency of the dual-slot store

A run opens a store on zeroed media and commits to it while requests fail and power is lost at any
call. Every block the run can leave behind is the encoding of one of its own records, the slot that
is active is never written, and the other slot becomes visible only when both of its blocks carry
the record being committed. So reopening finds the active record or the one under way.
-/

namespace Troe.TxSlot

open Lib Block
open Prog (andThen_done runs_run wp_bind wp_mapErr wp_ofExcept_bind wp_pure)

/-! ## What `open` sees in a slot -/

/-- The candidate that `read_candidate` finds in a slot. -/
def visible (blockBytes slot : ℕ) : Option Record → Option Record → Option Candidate
  | some data, some marker =>
    if marker.generation = data.generation ∧
        recordChecksum blockBytes marker = recordChecksum blockBytes data then
      some { slot, generation := data.generation, payload := data.payload }
    else none
  | _, _ => none

/-- The record a candidate shows. -/
def Candidate.record (c : Candidate) : Record :=
  { generation := c.generation, payload := c.payload }

theorem visible_eq_some {blockBytes slot : ℕ} {data marker : Option Record} {c : Candidate}
    (h : visible blockBytes slot data marker = some c) : c.slot = slot ∧ data = some c.record := by
  obtain _ | r := data
  · simp [visible] at h
  · obtain _ | r' := marker
    · simp [visible] at h
    · simp only [visible, Option.ite_none_right_eq_some, Option.some.injEq] at h
      obtain ⟨-, rfl⟩ := h
      exact ⟨rfl, rfl⟩

/-- The two blocks of a slot hold these records. -/
structure Holds (region : BlockRegion) (contents : ℕ → Bytes) (slot : ℕ)
    (data marker : Option Record) : Prop where
  data_fits : ∀ r ∈ data, r.Fits region.geometry.logicalBlockBytes
  marker_fits : ∀ r ∈ marker, r.Fits region.geometry.logicalBlockBytes
  data_eq : contents (region.startBlock + slot * 2)
    = dataCell region.geometry.logicalBlockBytes data
  marker_eq : contents (region.startBlock + (slot * 2 + 1))
    = commitCell region.geometry.logicalBlockBytes marker

/-- What `open` checks about a granted region. -/
structure Usable (region : BlockRegion) : Prop where
  access : region.access = .readWrite
  flush : region.geometry.supportsFlush = true
  block_le : region.geometry.logicalBlockBytes ≤ maxLogicalBlockBytes
  header_le : dataHeaderBytes + 1 ≤ region.geometry.logicalBlockBytes
  admitted : ∀ lba < 4, region.validateRequest lba 1 region.geometry.logicalBlockBytes
    = .ok (region.startBlock + lba)

theorem usable_of_supported {region : BlockRegion} (h : region.Granted)
    (hs : supported region.info = true) : Usable region := by
  obtain ⟨hmax, -, -⟩ := h.bounds
  simp only [supported, Bool.and_eq_true, decide_eq_true_eq] at hs
  simp only [BlockRegion.info, transactionBlocks] at hs
  obtain ⟨⟨⟨⟨⟨⟨haccess, hflush⟩, halign⟩, hcount⟩, hheader⟩, hblocks⟩, hbytes⟩ := hs
  refine ⟨haccess, hflush, hmax, hheader, fun lba hlba => ?_⟩
  have hfit : 1 * region.geometry.logicalBlockBytes < 2 ^ 64 := by
    rw [maxLogicalBlockBytes] at hmax
    omega
  have hvalid := BlockRegion.validateRequest_eq_ok h halign one_ne_zero
    (show lba + 1 ≤ region.blockCount by omega) hblocks (by omega) hfit
  rwa [one_mul] at hvalid

section

variable {region : BlockRegion} {m : Media ℕ Bytes} {β : Type}

/-- The device behind a store, with every fault allowed. -/
abbrev faulty (region : BlockRegion) : Env Device (Media ℕ Bytes) :=
  deviceEnv region.geometry.logicalBlockBytes true

variable {Q : Outcome PersistError β → Media ℕ Bytes → Prop}
  {f : Bytes → Prog Device PersistError β}

theorem wp_zeroed_bind {bytes : ℕ} (hdone : (f (List.replicate bytes 0)).wp (faulty region) Q m)
    (hfailed : Q (.failed .metadataExhausted) m) (hlost : ∀ m', m.Survives m' → Q .lost m') :
    (zeroed bytes >>= f).wp (faulty region) Q m :=
  wp_bind.mpr (wp_tryReserve_bind (wp_pure.mpr hdone) (fun _ => hfailed) hlost)

variable (hu : Usable region)
include hu

theorem wp_readBlock_bind {lba : ℕ} (hlba : lba < 4)
    (hdone : (f (m.view (region.startBlock + lba))).wp (faulty region) Q m)
    (hfailed : ∀ e, Q (.failed (.block e)) m) (hlost : ∀ m', m.Survives m' → Q .lost m') :
    ((region.readBlocks lba 1 region.geometry.logicalBlockBytes).mapErr .block >>= f).wp
      (faulty region) Q m := by
  refine wp_bind.mpr (wp_mapErr.mpr ?_)
  refine BlockRegion.wp_readBlocks (hu.admitted lba hlba) ?_ (fun _ e => hfailed e) hlost
  rw [readBack_one]
  exact hdone

variable {f : Unit → Prog Device PersistError β}

/-- Writing one block: the cache holds the block, or a failed request may have put it there. -/
theorem wp_writeBlock_bind {lba : ℕ} (hlba : lba < 4) {source : Bytes}
    (hsource : source.length = region.geometry.logicalBlockBytes)
    (hdone : (f ()).wp (faulty region) Q (m.write [(region.startBlock + lba, source)]))
    (hfailed : ∀ e ws, ws ⊆ [(region.startBlock + lba, source)] →
      Q (.failed (.block e)) (m.write ws))
    (hlost : ∀ m', (m.write [(region.startBlock + lba, source)]).Survives m' → Q .lost m') :
    ((region.writeBlocks lba 1 source false).mapErr .block >>= f).wp (faulty region) Q m := by
  refine wp_bind.mpr (wp_mapErr.mpr ?_)
  have hvalid : region.validateRequest lba 1 source.length = .ok (region.startBlock + lba) := by
    rw [hsource]
    exact hu.admitted lba hlba
  refine BlockRegion.wp_writeBlocks hu.access hvalid ?_ ?_ ?_ <;>
    rw [blockWrites_one hsource]
  · exact hdone
  · exact fun _ e ws hws => hfailed e ws hws.subset
  · exact hlost

theorem wp_flush_bind (hdone : (f ()).wp (faulty region) Q m.flush)
    (hfailed : ∀ e, Q (.failed (.block e)) m) (hlost : ∀ m', m.Survives m' → Q .lost m') :
    (region.flush.mapErr .block >>= f).wp (faulty region) Q m :=
  wp_bind.mpr (wp_mapErr.mpr
    (BlockRegion.wp_flush hu.access hu.flush hdone (fun _ e => hfailed e) hlost))

/-- A zeroed slot, a torn slot and a slot whose blocks disagree show nothing; otherwise a slot shows
the record of its data block. -/
theorem wp_readCandidate {slot : ℕ} (hslot : slot < 2) {data marker : Option Record}
    (hholds : Holds region m.view slot data marker)
    {Q : Outcome PersistError (Option Candidate) → Media ℕ Bytes → Prop}
    (hdone : Q (.done (visible region.geometry.logicalBlockBytes slot data marker)) m)
    (hfailed : ∀ e, e ≠ .corrupt → Q (.failed e) m) (hlost : ∀ m', m.Survives m' → Q .lost m') :
    (readCandidate region slot region.geometry.logicalBlockBytes).wp (faulty region) Q m := by
  obtain ⟨hdata, hmarker, hdata_eq, hmarker_eq⟩ := hholds
  have hexhausted := hfailed .metadataExhausted (by decide)
  have hblock (e : BlockError) : Q (.failed (.block e)) m := hfailed _ (by simp)
  refine wp_zeroed_bind (wp_zeroed_bind ?_ hexhausted hlost) hexhausted hlost
  refine wp_readBlock_bind hu (by omega) (wp_readBlock_bind hu (by omega) ?_ hblock hlost)
    hblock hlost
  rw [hdata_eq, hmarker_eq]
  obtain _ | r := data
  · -- nothing to parse, whatever the commit block holds
    split
    · exact wp_pure.mpr hdone
    · exact wp_bind.mpr (wp_parseData_zero (andThen_done (wp_pure.mpr hdone)))
  have hr := hdata r rfl
  refine wp_bind.mpr (wp_parseData_dataBlock hr (andThen_done ?_)
    (Prog.andThen_failed hexhausted) fun m' hm' => Prog.andThen_lost (hlost m' hm'))
  obtain _ | r' := marker
  · refine wp_ofExcept_bind (parseCommit_zero _ _ _) ?_
    exact wp_pure.mpr hdone
  · refine wp_ofExcept_bind (parseCommit_commitBlock (hmarker r' rfl) _ _) ?_
    rw [visible] at hdone
    split
    next hne =>
      rw [if_neg (by simpa using hne)] at hdone
      exact wp_pure.mpr hdone
    next heq =>
      rw [if_pos (by simpa using heq)] at hdone
      exact wp_pure.mpr hdone

end

/-! ## The invariant of a run -/

/-- The slot of the active record; the second one as long as there is none. -/
def home (active : Option Candidate) : ℕ := active.elim 1 Candidate.slot

/-- The slot the next commit writes. -/
def away (active : Option Candidate) : ℕ := active.elim 0 fun candidate => candidate.slot ^^^ 1

/-- The active generation. -/
def activeGeneration (active : Option Candidate) : ℕ := active.elim 0 Candidate.generation

/-- A record that a commit under way on top of `active` may have written. -/
structure Underway (region : BlockRegion) (active : Option Candidate) (since : List Record)
    (r : Record) : Prop where
  fits : r.Fits region.geometry.logicalBlockBytes
  next : r.generation = activeGeneration active + 1
  mem : r ∈ since

/-- The block write that stores a record's data on top of `active`. -/
def dataWrite (region : BlockRegion) (active : Option Candidate) (r : Record) : ℕ × Bytes :=
  (region.startBlock + away active * 2, dataBlock region.geometry.logicalBlockBytes r)

/-- The block write that makes a record visible on top of `active`. -/
def markerWrite (region : BlockRegion) (active : Option Candidate) (r : Record) : ℕ × Bytes :=
  (region.startBlock + (away active * 2 + 1), commitBlock region.geometry.logicalBlockBytes r)

/-- The blocks of a region while `active` is the record in use and `since` are the records of the
commits that were attempted since the last one that succeeded: the home slot shows the active
record and is not being written, the other slot holds older records or ones under way. -/
structure Consistent (region : BlockRegion) (active : Option Candidate) (since : List Record)
    (m : Media ℕ Bytes) : Prop where
  home_lt : home active < 2
  home_slot : ∃ data marker, Holds region m.durable (home active) data marker ∧
    visible region.geometry.logicalBlockBytes (home active) data marker = active ∧
    ∀ r ∈ data, r.generation ≤ activeGeneration active
  away_slot : ∃ data marker, Holds region m.durable (away active) data marker ∧
    ∀ r ∈ data, r.generation < activeGeneration active ∨ Underway region active since r
  pending : ∀ w ∈ m.pending, ∃ r, Underway region active since r ∧
    (w = dataWrite region active r ∨ w = markerWrite region active r)

section

variable {region : BlockRegion} {active : Option Candidate} {since since' : List Record}
  {m : Media ℕ Bytes}

theorem away_eq (h : home active < 2) : away active = 1 - home active := by
  obtain _ | candidate := active
  · rfl
  · simp only [home, away, Option.elim] at h ⊢
    obtain hslot | hslot : candidate.slot = 0 ∨ candidate.slot = 1 := by omega
    · rw [hslot]; rfl
    · rw [hslot]; rfl

variable {r : Record} {β : Type}

theorem Underway.mono (h : since ⊆ since') (hr : Underway region active since r) :
    Underway region active since' r :=
  ⟨hr.fits, hr.next, h hr.mem⟩

namespace Consistent

variable {ws : List (ℕ × Bytes)} {r : Record}

variable (h : Consistent region active since m)
include h

theorem mono (hsub : since ⊆ since') : Consistent region active since' m := by
  obtain ⟨hlt, hhome, ⟨data, marker, hholds, hdata⟩, hpending⟩ := h
  refine ⟨hlt, hhome, ⟨data, marker, hholds, fun r hr => ?_⟩, fun w hw => ?_⟩
  · exact (hdata r hr).imp_right (Underway.mono hsub)
  · obtain ⟨r, hr, hw⟩ := hpending w hw
    exact ⟨r, hr.mono hsub, hw⟩

section

variable (hr : Underway region active since r)
include hr

/-- More blocks of commits under way may enter the cache. -/
theorem write (hws : ∀ w ∈ ws, w = dataWrite region active r ∨ w = markerWrite region active r) :
    Consistent region active since (m.write ws) := by
  refine ⟨h.home_lt, h.home_slot, h.away_slot, fun w hw => ?_⟩
  rcases List.mem_append.mp hw with hold | hnew
  · exact h.pending w hold
  · exact ⟨r, hr, hws w hnew⟩

theorem write_data (hws : ws ⊆ [dataWrite region active r]) :
    Consistent region active since (m.write ws) :=
  h.write hr fun _ hw => .inl (List.mem_singleton.mp (hws hw))

theorem write_marker (hws : ws ⊆ [markerWrite region active r]) :
    Consistent region active since (m.write ws) :=
  h.write hr fun _ hw => .inr (List.mem_singleton.mp (hws hw))

end

/-- Whatever part of the cache becomes durable, the blocks stay consistent. -/
theorem settle {contents : ℕ → Bytes}
    (hcontents : ∀ a, contents a = m.durable a ∨ (a, contents a) ∈ m.pending) :
    Consistent region active since { durable := contents, pending := [] } := by
  have haway := away_eq h.home_lt
  refine ⟨h.home_lt, ?_, ?_, by simp⟩
  · -- the home slot has no cached writes
    obtain ⟨data, marker, ⟨hdata, hmarker, hdata_eq, hmarker_eq⟩, hvisible⟩ := h.home_slot
    have hquiet (lba : ℕ) (hlba : lba ≠ away active * 2) (hlba' : lba ≠ away active * 2 + 1) :
        contents (region.startBlock + lba) = m.durable (region.startBlock + lba) := by
      refine (hcontents _).resolve_right fun hmem => ?_
      obtain ⟨r, -, heq | heq⟩ := h.pending _ hmem
      · have hlba := (Prod.mk.inj heq).1
        omega
      · have hlba := (Prod.mk.inj heq).1
        omega
    refine ⟨data, marker, ⟨hdata, hmarker, ?_, ?_⟩, hvisible⟩
    · exact (hquiet _ (by omega) (by omega)).trans hdata_eq
    · exact (hquiet _ (by omega) (by omega)).trans hmarker_eq
  · obtain ⟨data, marker, ⟨hdata, hmarker, hdata_eq, hmarker_eq⟩, hgeneration⟩ := h.away_slot
    obtain ⟨data', hdata', hdata_eq'⟩ : ∃ data' : Option Record,
        (∀ r ∈ data', r.Fits region.geometry.logicalBlockBytes ∧
          (r.generation < activeGeneration active ∨ Underway region active since r)) ∧
        contents (region.startBlock + away active * 2)
          = dataCell region.geometry.logicalBlockBytes data' := by
      rcases hcontents (region.startBlock + away active * 2) with hold | hmem
      · exact ⟨data, fun r hr => ⟨hdata r hr, hgeneration r hr⟩, hold.trans hdata_eq⟩
      · obtain ⟨r, hr, heq | heq⟩ := h.pending _ hmem
        · refine ⟨some r, ?_, congrArg Prod.snd heq⟩
          rintro _ ⟨⟩
          exact ⟨hr.fits, .inr hr⟩
        · have hlba := (Prod.mk.inj heq).1
          omega
    obtain ⟨marker', hmarker', hmarker_eq'⟩ : ∃ marker' : Option Record,
        (∀ r ∈ marker', r.Fits region.geometry.logicalBlockBytes) ∧
        contents (region.startBlock + (away active * 2 + 1))
          = commitCell region.geometry.logicalBlockBytes marker' := by
      rcases hcontents (region.startBlock + (away active * 2 + 1)) with hold | hmem
      · exact ⟨marker, hmarker, hold.trans hmarker_eq⟩
      · obtain ⟨r, hr, heq | heq⟩ := h.pending _ hmem
        · have hlba := (Prod.mk.inj heq).1
          omega
        · refine ⟨some r, ?_, congrArg Prod.snd heq⟩
          rintro _ ⟨⟩
          exact hr.fits
    exact ⟨data', marker', ⟨fun r hr => (hdata' r hr).1, hmarker', hdata_eq', hmarker_eq'⟩,
      fun r hr => (hdata' r hr).2⟩

theorem flush : Consistent region active since m.flush :=
  h.settle m.view_block

theorem survives {m' : Media ℕ Bytes} (hm : m.Survives m') : Consistent region active since m' := by
  have hsettle := h.settle hm.block
  rwa [← hm.pending_eq] at hsettle

/-- When the other slot shows a record of the next generation, that record may become the active
one: the slots change roles. -/
theorem swap (hpending : m.pending = []) {data marker : Option Record}
    (hholds : Holds region m.durable (away active) data marker) {found : Candidate}
    (hvisible : visible region.geometry.logicalBlockBytes (away active) data marker = some found)
    (hnext : found.generation = activeGeneration active + 1) (since' : List Record) :
    Consistent region (some found) since' m := by
  obtain ⟨hslot, hdata⟩ := visible_eq_some hvisible
  have hlt := h.home_lt
  have haway := away_eq hlt
  obtain ⟨old, oldMarker, hold, -, hgeneration⟩ := h.home_slot
  have hhome : home (some found) = away active := hslot
  have hback : away (some found) = home active := by
    rw [away_eq (by omega)]
    omega
  refine ⟨by omega, ?_, ?_, by simp [hpending]⟩
  · rw [hhome]
    refine ⟨data, marker, hholds, hvisible, fun r hr => ?_⟩
    rw [hdata, Option.mem_some_iff] at hr
    exact (congrArg Record.generation hr).ge
  · rw [hback]
    refine ⟨old, oldMarker, hold, fun r hr => .inl ?_⟩
    have := hgeneration r hr
    simp only [activeGeneration, Option.elim] at hnext this ⊢
    omega

end Consistent

/-! ## Opening -/

/-- `chooseActive` does not care which slot is which. -/
theorem chooseActive_comm (a b : Option Candidate) : chooseActive a b = chooseActive b a := by
  obtain _ | a := a <;> obtain _ | b := b <;> try rfl
  simp only [chooseActive]
  rcases lt_trichotomy a.generation b.generation with h | h | h
  · simp [h, h.ne, h.ne', not_lt.mpr h.le]
  · simp [h]
  · simp [h, h.ne, h.ne', not_lt.mpr h.le]

/-- What reopening consistent blocks may find: the active record, or one under way. -/
def Recovered (region : BlockRegion) (active : Option Candidate) (since : List Record)
    (found : Option Candidate) : Prop :=
  found = active ∨ ∃ c, found = some c ∧ Underway region active since c.record

/-- The choice between the two slots of consistent blocks succeeds, and the blocks are consistent
with it. -/
theorem Consistent.choose (h : Consistent region active since m) (hpending : m.pending = [])
    {data marker : Option Record} (hholds : Holds region m.durable (away active) data marker)
    (hdata : ∀ r ∈ data, r.generation < activeGeneration active ∨ Underway region active since r) :
    ∃ found, chooseActive active
        (visible region.geometry.logicalBlockBytes (away active) data marker) = .ok found ∧
      Recovered region active since found ∧ Consistent region found since m := by
  rcases hfound : visible region.geometry.logicalBlockBytes (away active) data marker with _ | c
  · refine ⟨active, ?_, .inl rfl, h⟩
    cases active <;> rfl
  obtain ⟨-, hc⟩ := visible_eq_some hfound
  rcases hdata c.record hc with hold | hnew
  · -- an older record loses against the active one
    refine ⟨active, ?_, .inl rfl, h⟩
    obtain _ | a := active
    · simp [activeGeneration] at hold
    · simp only [activeGeneration, Option.elim, Candidate.record] at hold
      simp [chooseActive, hold, hold.ne']
  · refine ⟨some c, ?_, .inr ⟨c, rfl, hnew⟩, h.swap hpending hholds hfound hnew.next since⟩
    obtain _ | a := active
    · rfl
    · have hnext := hnew.next
      simp only [activeGeneration, Option.elim, Candidate.record] at hnext
      simp only [chooseActive]
      rw [if_neg (by omega), if_neg (by omega)]

/-- The store object for a region with this active record. -/
def storeOf (region : BlockRegion) (active : Option Candidate) : DualSlotStore :=
  { region, blockBytes := region.geometry.logicalBlockBytes, active }

/-- Opening consistent blocks never reports corruption; it finds the active record or one under
way, and nothing it does changes the blocks. -/
theorem wp_open (hregion : region.Granted) (h : Consistent region active since m)
    (hpending : m.pending = [])
    {Q : Outcome PersistError DualSlotStore → Media ℕ Bytes → Prop}
    (hdone : ∀ found, Usable region → Recovered region active since found →
      Consistent region found since m →
      Q (.done (storeOf region found)) m)
    (hfailed : ∀ e, e ≠ .corrupt → Q (.failed e) m) (hlost : Q .lost m) :
    (DualSlotStore.open region).wp (faulty region) Q m := by
  have hview : m.view = m.durable := by simp [Media.view, hpending]
  have hlost' : ∀ m', m.Survives m' → Q .lost m' := by
    rintro m' hm
    rwa [hm.eq_of_pending_nil hpending]
  refine wp_bind.mpr (Prog.wp_reject.mpr ⟨fun _ => hfailed _ (by decide), fun hs => ?_⟩)
  have hu := usable_of_supported hregion (by simpa using hs)
  obtain ⟨old, oldMarker, hhome, hvisible, -⟩ := h.home_slot
  obtain ⟨data, marker, haway, hdata⟩ := h.away_slot
  obtain ⟨found, hchoose, hrecovered, hfound⟩ := h.choose hpending haway hdata
  have hslots := away_eq h.home_lt
  have hlt := h.home_lt
  obtain ⟨d0, k0, d1, k1, h0, h1, hboth⟩ : ∃ d0 k0 d1 k1, Holds region m.view 0 d0 k0 ∧
      Holds region m.view 1 d1 k1 ∧
      chooseActive (visible region.geometry.logicalBlockBytes 0 d0 k0)
        (visible region.geometry.logicalBlockBytes 1 d1 k1) = .ok found := by
    rw [hview]
    obtain hzero | hone : home active = 0 ∨ home active = 1 := by omega
    · rw [hslots, hzero] at haway hchoose
      rw [hzero] at hhome hvisible
      exact ⟨old, oldMarker, data, marker, hhome, haway, hvisible ▸ hchoose⟩
    · rw [hslots, hone] at haway hchoose
      rw [hone] at hhome hvisible
      refine ⟨data, marker, old, oldMarker, haway, hhome, ?_⟩
      rw [chooseActive_comm]
      exact hvisible ▸ hchoose
  refine wp_bind.mpr (wp_readCandidate hu (by decide) h0 (andThen_done ?_) hfailed hlost')
  refine wp_bind.mpr (wp_readCandidate hu (by decide) h1 (andThen_done ?_) hfailed hlost')
  exact wp_ofExcept_bind hboth (wp_pure.mpr (hdone found hu hrecovered hfound))

/-! ## Committing -/

/-- The record that committing `payload` on top of `active` writes. -/
def attempt (active : Option Candidate) (payload : Bytes) : Record :=
  { generation := activeGeneration active + 1, payload }

variable {Q : Outcome PersistError β → Media ℕ Bytes → Prop}
  {f : Bytes → Prog Device PersistError β}

theorem wp_encodeData_bind (hr : r.Fits region.geometry.logicalBlockBytes)
    (hdone : (f (dataBlock region.geometry.logicalBlockBytes r)).wp (faulty region) Q m)
    (hfailed : Q (.failed .metadataExhausted) m) (hlost : ∀ m', m.Survives m' → Q .lost m') :
    (encodeData region.geometry.logicalBlockBytes r.generation r.payload >>= f).wp
      (faulty region) Q m := by
  refine wp_bind.mpr (wp_zeroed_bind ?_ hfailed hlost)
  exact Prog.wp_reject_bind (not_le.mpr hr.payload_lt) (wp_pure.mpr hdone)

theorem wp_encodeCommit_bind
    (hdone : (f (commitBlock region.geometry.logicalBlockBytes r)).wp (faulty region) Q m)
    (hfailed : Q (.failed .metadataExhausted) m) (hlost : ∀ m', m.Survives m' → Q .lost m') :
    (encodeCommit region.geometry.logicalBlockBytes r.generation
      (recordChecksum region.geometry.logicalBlockBytes r) >>= f).wp (faulty region) Q m :=
  wp_bind.mpr (wp_zeroed_bind (wp_pure.mpr hdone) hfailed hlost)

/-- Data, flush, marker, flush: the record is active once all four steps are done, and the blocks
stay consistent with the old one until then. -/
theorem wp_writeSlot_bind (hu : Usable region) (h : Consistent region active since m)
    (hr : Underway region active since r) {f : Unit → Prog Device PersistError β}
    (hdone : ∀ m', Consistent region (some ⟨away active, r.generation, r.payload⟩) [] m' →
      (f ()).wp (faulty region) Q m')
    (hfailed : ∀ e m', Consistent region active since m' → Q (.failed e) m')
    (hlost : ∀ m', Consistent region active since m' → ∀ m'', m'.Survives m'' → Q .lost m'') :
    ((region.writeBlocks (away active * 2) 1 (dataBlock region.geometry.logicalBlockBytes r)
        false).mapErr .block >>= fun _ => region.flush.mapErr .block >>= fun _ =>
      (region.writeBlocks (away active * 2 + 1) 1 (commitBlock region.geometry.logicalBlockBytes r)
        false).mapErr .block >>= fun _ => region.flush.mapErr .block >>= f).wp
      (faulty region) Q m := by
  have haway : away active < 2 := by
    rw [away_eq h.home_lt]
    omega
  have h1 := h.write_data hr (List.Subset.refl _)
  refine wp_writeBlock_bind hu (by omega) (length_dataBlock hr.fits) ?_
    (fun e ws hws => hfailed _ _ (h.write_data hr hws)) (hlost _ h1)
  refine wp_flush_bind hu ?_ (fun e => hfailed _ _ h1) (hlost _ h1)
  have h2 := h1.flush.write_marker hr (List.Subset.refl _)
  refine wp_writeBlock_bind hu (by omega) (length_commitBlock hr.fits) ?_
    (fun e ws hws => hfailed _ _ (h1.flush.write_marker hr hws)) (hlost _ h2)
  refine wp_flush_bind hu (hdone _ ?_) (fun e => hfailed _ _ h2) (hlost _ h2)
  -- both blocks of the record are durable now
  have hdata : ((m.write [dataWrite region active r]).flush.write
      [markerWrite region active r]).view (region.startBlock + away active * 2)
        = dataBlock region.geometry.logicalBlockBytes r := by
    rw [Media.view_of_forall_ne (by simp [markerWrite])]
    exact Media.view_write_self m _ _
  have hholds : Holds region ((m.write [dataWrite region active r]).flush.write
      [markerWrite region active r]).view (away active) (some r) (some r) :=
    { data_fits := by rintro _ ⟨⟩; exact hr.fits
      marker_fits := by rintro _ ⟨⟩; exact hr.fits
      data_eq := hdata
      marker_eq := Media.view_write_self _ _ _ }
  exact h2.flush.swap rfl hholds (by simp [visible]) hr.next []

/-- A commit that succeeds makes its record the active one. A commit that fails or is interrupted
leaves the blocks consistent with the record that was active. -/
theorem wp_commit (hu : Usable region) (h : Consistent region active since m) (payload : Bytes)
    {Q : Outcome PersistError (ℕ × DualSlotStore) → Media ℕ Bytes → Prop}
    (hdone : ∀ c m', c.record = attempt active payload → Consistent region (some c) [] m' →
      Q (.done (c.generation, storeOf region (some c))) m')
    (hfailed : ∀ e m', Consistent region active (attempt active payload :: since) m' →
      Q (.failed e) m')
    (hlost : ∀ m', m'.pending = [] →
      Consistent region active (attempt active payload :: since) m' → Q .lost m') :
    ((storeOf region active).commit payload).wp (faulty region) Q m := by
  have hm := h.mono (List.subset_cons_self (attempt active payload) since)
  have hcrash m' (hm' : Consistent region active (attempt active payload :: since) m') :
      ∀ m'', m'.Survives m'' → Q .lost m'' :=
    fun m'' hs => hlost m'' hs.pending_eq (hm'.survives hs)
  refine wp_bind.mpr (Prog.wp_reject.mpr ⟨fun _ => hfailed _ m hm, fun hsmall => ?_⟩)
  refine wp_bind.mpr (Prog.wp_ofOption.mpr ⟨fun generation hgen => ?_, fun _ => hfailed _ m hm⟩)
  rw [checkedAdd_eq_some] at hgen
  obtain ⟨hgen, rfl⟩ := hgen
  have hfits : payload.length + 32 ≤ region.geometry.logicalBlockBytes := by
    have := hu.header_le
    simp only [DualSlotStore.maxPayloadBytes, storeOf, dataHeaderBytes, not_lt] at hsmall this
    omega
  have hr : Underway region active (attempt active payload :: since) (attempt active payload) :=
    ⟨⟨Nat.succ_ne_zero _, hgen, hfits, hu.block_le⟩, rfl, List.mem_cons_self⟩
  refine andThen_done (wp_tryReserve_bind ?_ (fun _ => hfailed _ m hm) (hcrash m hm))
  refine wp_encodeData_bind hr.fits ?_ (hfailed _ m hm) (hcrash m hm)
  refine wp_ofExcept_bind (readU32_dataBlock hr.fits) ?_
  refine wp_encodeCommit_bind (r := attempt active payload) ?_ (hfailed _ m hm) (hcrash m hm)
  refine wp_writeSlot_bind hu hm hr (fun m' hm' => ?_) hfailed hcrash
  exact wp_pure.mpr (hdone _ m' rfl hm')

end

/-! ## Runs -/

/-- A run of a store: the device, the store object while there is one, the record of the last
commit that returned success, and the records of the commits attempted since. -/
structure Run where
  media : Media ℕ Bytes
  store : Option DualSlotStore
  acked : Option Record
  since : List Record

namespace Run

/-- Before the first open. -/
def fresh (media : Media ℕ Bytes) : Run := { media, store := none, acked := none, since := [] }

/-- A call of `open` ended. -/
def afterOpen (w : Run) : Outcome PersistError DualSlotStore → Media ℕ Bytes → Run
  | .done store, m => { w with media := m, store := some store }
  | .failed _, m => { w with media := m, store := none }
  | .lost, m => { w with media := m, store := none }

/-- A call of `commit` on `store` ended. -/
def afterCommit (w : Run) (store : DualSlotStore) (payload : Bytes) :
    Outcome PersistError (ℕ × DualSlotStore) → Media ℕ Bytes → Run
  | .done (generation, store'), m =>
    { media := m, store := some store', acked := some { generation, payload }, since := [] }
  | .failed _, m => { w with media := m, since := attempt store.active payload :: w.since }
  | .lost, m =>
    { w with media := m, store := none, since := attempt store.active payload :: w.since }

/-- One step of a run. A store object exists from an `open` that succeeds until power is lost. -/
inductive Step (region : BlockRegion) : Run → Run → Prop
  | opened {w : Run} {o : Outcome PersistError DualSlotStore} {m : Media ℕ Bytes}
      (down : w.store = none)
      (runs : (DualSlotStore.open region).Runs (faulty region) w.media o m) :
      Step region w (w.afterOpen o m)
  | committed {w : Run} {store : DualSlotStore} {payload : Bytes}
      {o : Outcome PersistError (ℕ × DualSlotStore)} {m : Media ℕ Bytes}
      (up : w.store = some store)
      (runs : (store.commit payload).Runs (faulty region) w.media o m) :
      Step region w (w.afterCommit store payload o m)
  | powerLoss {w : Run} {m : Media ℕ Bytes} (survives : w.media.Survives m) :
      Step region w { w with media := m, store := none }

end Run

/-- Media whose two slots are zeroed. -/
structure Blank (region : BlockRegion) (m : Media ℕ Bytes) : Prop where
  pending : m.pending = []
  zeroed : ∀ lba < 4, m.durable (region.startBlock + lba)
    = List.replicate region.geometry.logicalBlockBytes 0

section

variable {region : BlockRegion} {m : Media ℕ Bytes}

theorem Blank.consistent (h : Blank region m) : Consistent region none [] m := by
  have hholds (slot : ℕ) (hslot : slot < 2) : Holds region m.durable slot none none :=
    ⟨by simp, by simp, h.zeroed _ (by omega), h.zeroed _ (by omega)⟩
  exact ⟨by decide, ⟨none, none, hholds 1 (by decide), rfl, by simp⟩,
    ⟨none, none, hholds 0 (by decide), by simp⟩, by simp [h.pending]⟩

namespace Run

variable {w w' : Run} {active : Option Candidate}

/-- What the active record owes to the commits of the run. -/
structure Owes (w : Run) (active : Option Candidate) : Prop where
  generation : w.acked.elim 0 Record.generation ≤ activeGeneration active
  payload : active.map Candidate.payload = w.acked.map Record.payload ∨
    ∃ r ∈ w.since, active.map Candidate.payload = some r.payload

/-- The invariant of a run: the blocks are consistent with an active record that is as new as the
last acknowledged commit, and a live store object has that record. -/
structure Inv (region : BlockRegion) (w : Run) (active : Option Candidate) : Prop where
  consistent : Consistent region active w.since w.media
  owes : Owes w active
  store : (w.store = none ∧ w.media.pending = []) ∨
    (w.store = some (storeOf region active) ∧ Usable region)

/-- Without a store object nothing is cached. -/
theorem Inv.pending (h : Inv region w active) (hdown : w.store = none) : w.media.pending = [] := by
  rcases h.store with ⟨-, hpending⟩ | ⟨hup, -⟩
  · exact hpending
  · rw [hdown] at hup
    cases hup

/-- A recovered record owes nothing less. -/
theorem Owes.recovered {found : Option Candidate} (h : Owes w active)
    (hfound : Recovered region active w.since found) : Owes w found := by
  obtain rfl | ⟨c, rfl, hc⟩ := hfound
  · exact h
  · have hnext : c.generation = activeGeneration active + 1 := hc.next
    refine ⟨?_, .inr ⟨c.record, hc.mem, rfl⟩⟩
    have := h.generation
    simp only [activeGeneration, Option.elim] at hnext this ⊢
    omega

/-- More attempts keep what the active record owes. -/
theorem Owes.mono (h : Owes w active)
    (hacked : w'.acked = w.acked) (hsince : w.since ⊆ w'.since) : Owes w' active := by
  refine ⟨hacked ▸ h.generation, ?_⟩
  rcases h.payload with hp | ⟨r, hr, hp⟩
  · exact .inl (hacked ▸ hp)
  · exact .inr ⟨r, hsince hr, hp⟩

theorem Inv.step (hregion : region.Granted)
    (h : Inv region w active) (hstep : Step region w w') : ∃ active', Inv region w' active' := by
  have ⟨hcons, howes, hstore⟩ := h
  cases hstep with
  | @opened o m down runs =>
    have hpending := h.pending down
    apply runs.of_wp
    refine wp_open hregion hcons hpending ?_ ?_ ?_
    · intro found hu hrecovered hfound
      exact ⟨found, hfound, (howes.recovered hrecovered).mono rfl (List.Subset.refl _),
        .inr ⟨rfl, hu⟩⟩
    · exact fun e _ =>
        ⟨active, hcons, howes.mono rfl (List.Subset.refl _), .inl ⟨rfl, hpending⟩⟩
    · exact ⟨active, hcons, howes.mono rfl (List.Subset.refl _), .inl ⟨rfl, hpending⟩⟩
  | @committed store payload o m up runs =>
    obtain ⟨hdown, -⟩ | ⟨hup, hu⟩ := hstore
    · rw [up] at hdown
      cases hdown
    obtain rfl : store = storeOf region active := Option.mem_unique up hup
    apply runs.of_wp
    refine wp_commit hu hcons payload ?_ ?_ ?_
    · intro c m' hc hm'
      have hpayload : c.payload = payload := congrArg Record.payload hc
      refine ⟨some c, hm', ⟨le_rfl, .inl ?_⟩, .inr ⟨rfl, hu⟩⟩
      exact congrArg some hpayload
    · intro e m' hm'
      exact ⟨active, hm', howes.mono rfl (List.subset_cons_self _ _), .inr ⟨up, hu⟩⟩
    · intro m' hpending hm'
      exact ⟨active, hm', howes.mono rfl (List.subset_cons_self _ _), .inl ⟨rfl, hpending⟩⟩
  | powerLoss survives =>
    exact ⟨active, hcons.survives survives, howes.mono rfl (List.Subset.refl _),
      .inl ⟨rfl, survives.pending_eq⟩⟩

/-- Every run from zeroed media keeps the invariant. -/
theorem inv_of_reachable (hregion : region.Granted) (hblank : Blank region m)
    (hrun : Relation.ReflTransGen (Step region) (fresh m) w) : ∃ active, Inv region w active := by
  induction hrun with
  | refl =>
    exact ⟨none, hblank.consistent, ⟨le_rfl, .inl rfl⟩, .inl ⟨rfl, hblank.pending⟩⟩
  | tail _ hstep ih =>
    obtain ⟨active, h⟩ := ih
    exact h.step hregion hstep

/-- Crash consistency. After any run from zeroed media, opening the store never reports corrupt
media; a store that opens has the payload of the last commit that returned success, or of one
attempted after it, and at least that commit's generation. No assumption on checksum collisions is
needed: a marker that matches another record's data still shows a record that was attempted. -/
theorem open_recovers (hregion : region.Granted) (hblank : Blank region m) {w : Run}
    (hrun : Relation.ReflTransGen (Step region) (fresh m) w) (hdown : w.store = none)
    {o : Outcome PersistError DualSlotStore} {m' : Media ℕ Bytes}
    (hopen : (DualSlotStore.open region).Runs (faulty region) w.media o m') :
    o ≠ .failed .corrupt ∧ ∀ store, o = .done store →
      (store.payload = w.acked.map Record.payload ∨
        ∃ r ∈ w.since, store.payload = some r.payload) ∧
      w.acked.elim 0 Record.generation ≤ store.generation := by
  obtain ⟨active, h⟩ := inv_of_reachable hregion hblank hrun
  apply hopen.of_wp
  refine wp_open hregion h.consistent (h.pending hdown) ?_ ?_ ?_
  · intro found _ hrecovered _
    have hfound := h.owes.recovered hrecovered
    refine ⟨by simp, ?_⟩
    rintro _ ⟨⟩
    exact ⟨hfound.payload, hfound.generation⟩
  · exact fun e he => ⟨by simpa using he, by simp⟩
  · exact ⟨by simp, by simp⟩

end Run

end

/-! ### A run with one commit -/

/-- Four 512-byte blocks. -/
def smallRegion : BlockRegion where
  startBlock := 0
  blockCount := 4
  access := .readWrite
  limits := { maxTransferBlocks := 1, maxTransferBytes := 512, queueDepth := 1 }
  geometry :=
    { logicalBlockBytes := 512, blockCount := 4, requiredAlignmentBlocks := 1,
      supportsFlush := true, supportsForceUnitAccess := false }

theorem smallRegion_granted : smallRegion.Granted :=
  ⟨smallRegion.geometry, 0, 4, .readWrite, smallRegion.limits, rfl⟩

/-- Zeroed media for `smallRegion`. -/
def blankMedia : Media ℕ Bytes := { durable := fun _ => List.replicate 512 0, pending := [] }

theorem blankMedia_blank : Blank smallRegion blankMedia := ⟨rfl, fun _ _ => rfl⟩

/-- `open` on the zeroed media when nothing fails. -/
def openedBlank : Outcome PersistError DualSlotStore × Media ℕ Bytes :=
  (DualSlotStore.open smallRegion).run (reliable 512) blankMedia

/-- The first commit when nothing fails. -/
def committedFirst : Outcome PersistError (ℕ × DualSlotStore) × Media ℕ Bytes :=
  ((storeOf smallRegion none).commit [7]).run (reliable 512) openedBlank.2

/-- Opening the zeroed media and committing to it both succeed. -/
theorem first_commit_runs : ∃ m1 m2, m1 = openedBlank.2 ∧ m2 = committedFirst.2 ∧
    (DualSlotStore.open smallRegion).Runs (faulty smallRegion) blankMedia
      (.done (storeOf smallRegion none)) m1 ∧
    ((storeOf smallRegion none).commit [7]).Runs (faulty smallRegion) m1
      (.done (1, storeOf smallRegion (some ⟨0, 1, [7]⟩))) m2 := by
  have hopened : openedBlank.1 = .done (storeOf smallRegion none) := by decide +kernel
  have hcommitted : committedFirst.1 = .done (1, storeOf smallRegion (some ⟨0, 1, [7]⟩)) := by
    decide +kernel
  refine ⟨_, _, rfl, rfl, ?_, ?_⟩
  · rw [← hopened]
    exact runs_run (reliable_answer 512 true) _ _
  · rw [← hcommitted]
    exact runs_run (reliable_answer 512 true) _ _

/-- After one acknowledged commit and a power loss, reopening finds exactly that commit. -/
theorem open_recovers_first_commit : ∃ w : Run,
    Relation.ReflTransGen (Run.Step smallRegion) (Run.fresh blankMedia) w ∧
    w.store = none ∧ w.acked = some { generation := 1, payload := [7] } ∧
    ∃ o m', (DualSlotStore.open smallRegion).Runs (faulty smallRegion) w.media o m' ∧
      o ≠ .failed .corrupt ∧ ∀ store, o = .done store →
        store.payload = some [7] ∧ 1 ≤ store.generation := by
  obtain ⟨m1, m2, -, -, hopened, hcommitted⟩ := first_commit_runs
  have hopened := Run.Step.opened (w := Run.fresh blankMedia) rfl hopened
  have hcommitted := Run.Step.committed
    (w := { Run.fresh blankMedia with media := m1, store := some (storeOf smallRegion none) })
    rfl hcommitted
  have hrun := ((Relation.ReflTransGen.single hopened).tail hcommitted).tail
    (.powerLoss (m := ⟨m2.durable, []⟩) ⟨[], List.nil_sublist _, rfl⟩)
  have hreopen := runs_run (W := faulty smallRegion) (reliable_answer 512 true)
    (DualSlotStore.open smallRegion) ⟨m2.durable, []⟩
  obtain ⟨hcorrupt, hstore⟩ :=
    Run.open_recovers smallRegion_granted blankMedia_blank hrun rfl hreopen
  refine ⟨_, hrun, rfl, rfl, _, _, hreopen, hcorrupt, fun store hdone => ?_⟩
  obtain ⟨hpayload | ⟨r, hr, -⟩, hgeneration⟩ := hstore store hdone
  · exact ⟨hpayload, hgeneration⟩
  · exact absurd hr List.not_mem_nil

end Troe.TxSlot
