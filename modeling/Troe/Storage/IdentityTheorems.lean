import Troe.Storage.Identity

/-!
# What an accepted identity registry satisfies

Records are sorted, memberships name live groups, lookup numbers are unique, and the cycle search
rejects exactly the registries whose memberships have a cycle.
-/

namespace Troe.Identity

open Lib
open List (finRange get_mem get_of_mem)

/-! ## Records -/

section Records

variable {grants : Reservation → Bool} {image : Bytes} {limits : IdentityLimits} {tables : Tables}

/-- The records are in strict order. -/
def Increasing (principals : List PrincipalRecord) : Prop :=
  principals.Pairwise fun p q => p.id.cmp q.id = .lt

theorem PrincipalId.cmp_trans {a b c : PrincipalId} (hab : a.cmp b = .lt) (hbc : b.cmp c = .lt) :
    a.cmp c = .lt := by
  unfold cmp at *
  exact Std.TransCmp.lt_trans hab hbc

theorem PrincipalId.cmp_eq {a b : PrincipalId} : a.cmp b = .eq ↔ a = b := by
  cases a
  cases b
  simp [cmp]

theorem PrincipalId.cmp_lt_of_le {a b c : PrincipalId} (hab : a.cmp b = .lt)
    (hbc : b.cmp c ≠ .gt) : a.cmp c = .lt := by
  cases hcmp : b.cmp c with
  | lt => exact cmp_trans hab hcmp
  | eq => rwa [cmp_eq.mp hcmp] at hab
  | gt => exact absurd hcmp hbc

/-- A record above the last one is above all. -/
theorem Increasing.append {principals : List PrincipalRecord} {record : PrincipalRecord}
    (h : Increasing principals)
    (hlast : ¬ principals.getLast?.any (fun last => (last.id.cmp record.id).isGE) = true) :
    Increasing (principals ++ [record]) := by
  have : IsTrans PrincipalRecord fun p q => p.id.cmp q.id = .lt :=
    ⟨fun _ _ _ => PrincipalId.cmp_trans⟩
  rw [Increasing, ← List.isChain_iff_pairwise] at h ⊢
  refine List.isChain_append.mpr ⟨h, List.isChain_singleton _, fun last hp q hq => ?_⟩
  rw [← Option.some.inj hq]
  rw [Option.mem_def.mp hp, Option.any_some] at hlast
  revert hlast
  cases last.id.cmp record.id <;> simp

/-- What holds of the records taken over so far. -/
structure Collected (scan : RecordScan) : Prop where
  increasing : Increasing scan.principals
  keys : scan.compatibility =
    scan.principals.filterMap fun record => record.compatibility.map CompatibilityId.key

theorem Collected.parseRecord {scan scan' : RecordScan} {index : ℕ} (h : Collected scan)
    (hrecord : parseRecord grants image limits tables scan index = .ok scan') :
    Collected scan' := by
  simp only [Identity.parseRecord, ok_rules, not_or] at hrecord
  obtain ⟨_, -, id, -, _, ⟨hlast, -⟩, kind, -, state, -, _, -, compatibility, -, hrecord⟩ := hrecord
  obtain ⟨_, -, _, -, _, -, _, -, _, -, _, -, _, -, _, -, label, -, _, -, hrecord⟩ := hrecord
  obtain ⟨memberships, -, hrecord⟩ := hrecord
  cases hrecord
  constructor
  case increasing => exact h.increasing.append hlast
  case keys =>
    rw [List.filterMap_append, ← h.keys]
    cases compatibility <;> rfl

/-- Equal neighbours are the only duplicates of a sorted list. -/
theorem nodup_of_not_hasTwins {pairs : List (ℕ × ℕ)}
    (hsorted : pairs.Pairwise fun a b => toLex a ≤ toLex b) (h : hasTwins pairs = false) :
    pairs.Nodup := by
  induction pairs using hasTwins.induct with
  | case1 first second rest ih =>
    rw [hasTwins, Bool.or_eq_false_iff, decide_eq_false_iff_not] at h
    obtain ⟨hfirst, hrest⟩ := List.pairwise_cons.mp hsorted
    refine List.nodup_cons.mpr ⟨fun hmem => ?_, ih hrest h.2⟩
    -- A later twin of the first would put the second between the two.
    obtain heq | hmem := List.mem_cons.mp hmem
    · exact h.1 heq
    · have hbelow := List.rel_of_pairwise_cons hrest hmem
      have habove := hfirst second List.mem_cons_self
      exact h.1 (toLex.injective (le_antisymm habove hbelow))
  | case2 pairs hshort =>
    match pairs, hshort with
    | [], _ => exact List.nodup_nil
    | [pair], _ => exact List.nodup_singleton pair
    | first :: second :: rest, hshort => exact absurd rfl (hshort first second rest)

theorem nodup_of_sortPairs {pairs : List (ℕ × ℕ)} (h : hasTwins (sortPairs pairs) = false) :
    pairs.Nodup := by
  have hsorted : (sortPairs pairs).Pairwise fun a b => toLex a ≤ toLex b :=
    List.pairwise_insertionSort _ _
  exact (List.perm_insertionSort _ pairs).nodup_iff.mp (nodup_of_not_hasTwins hsorted h)

/-- What the loop over the records and the checks after it establish. -/
theorem parseRecords_spec {registry : IdentityRegistry}
    (h : parseRecords grants image limits = .ok registry) :
    Increasing registry.principals ∧
      registry.principals.Pairwise fun p q =>
        ∀ number, p.compatibility = some number → q.compatibility ≠ some number := by
  simp only [parseRecords, ok_rules, Bool.not_eq_true] at h
  obtain ⟨tables, -, _, -, _, -, scan, hscan, _, -, _, htwins, h⟩ := h
  cases h
  have hcollected : Collected scan := by
    refine foldlM_range_ok_induction (P := fun _ => Collected) hscan ?_ ?_
    · exact ⟨.nil, rfl⟩
    · exact fun _ _ _ _ hs hstep => hs.parseRecord hstep
  refine ⟨hcollected.increasing, ?_⟩
  have hkeys := nodup_of_sortPairs htwins
  rw [hcollected.keys, List.Nodup, List.pairwise_filterMap] at hkeys
  refine hkeys.imp fun hpq number hp hq => ?_
  exact hpq number.key (by simp [hp]) number.key (by simp [hq]) rfl

end Records

/-! ## Memberships -/

namespace IdentityRegistry

variable {registry : IdentityRegistry} {grants : Reservation → Bool} {id : PrincipalId}
  {v w start : Fin registry.principals.length} {colors : Fin registry.principals.length → Color}
  {error : IdentityError}

/-- A principal is a direct member of a group. -/
def Member (registry : IdentityRegistry) (member group : PrincipalId) : Prop :=
  ∃ record ∈ registry.principals, record.id = member ∧ group ∈ record.memberships

/-- Some principal is its own member over one or more steps. -/
def HasCycle (registry : IdentityRegistry) : Prop :=
  ∃ id, Relation.TransGen registry.Member id id

/-- Every membership names an existing group that is not tombstoned. -/
def References (registry : IdentityRegistry) : Prop :=
  ∀ member group, registry.Member member group → ∃ record ∈ registry.principals,
    record.id = group ∧ record.kind = .group ∧ record.state ≠ .tombstoned

section

variable (hsorted : Increasing registry.principals)
include hsorted

/-- In a sorted registry, the search finds exactly the record with the identifier. -/
theorem indexOf_eq_some {index : Fin registry.principals.length} :
    registry.indexOf id = some index ↔ (registry.principals.get index).id = id := by
  have hascending : Ascending registry.principals fun record => record.id.cmp id := by
    refine List.Pairwise.imp (fun hpq hq => ?_) hsorted
    -- A record at or below the identifier has all earlier ones below it.
    exact PrincipalId.cmp_lt_of_le hpq hq
  rw [indexOf, binarySearchBy_eq_some hascending]
  exact PrincipalId.cmp_eq

theorem get_injective (h : (registry.principals.get v).id = (registry.principals.get w).id) :
    v = w := by
  have hv := (indexOf_eq_some hsorted).mpr h
  exact Option.some.inj (hv.symm.trans ((indexOf_eq_some hsorted).mpr rfl))

theorem references_of_checkReferences (h : registry.checkReferences = .ok ()) :
    registry.References := by
  rintro _ group ⟨record, hrecord, rfl, hgroup⟩
  have hcheck := forM_eq_ok.mp (forM_eq_ok.mp h record hrecord) group hgroup
  simp only [checkReference, ok_rules, not_or, not_not] at hcheck
  obtain ⟨target, htarget, hkind, hstate⟩ := hcheck
  obtain ⟨index, hindex, rfl⟩ := Option.map_eq_some_iff.mp htarget
  exact ⟨_, get_mem _ _, (indexOf_eq_some hsorted).mp hindex, hkind, hstate⟩

variable (hrefs : registry.References)
include hrefs

/-- Every membership is found once the references are checked. -/
theorem exists_groupsOf (v : Fin registry.principals.length) :
    ∃ targets, registry.groupsOf v = .ok targets := by
  have hall : ∀ group ∈ (registry.principals.get v).memberships, ∃ target,
      okOr (registry.indexOf group) IdentityError.invalidReference = .ok target := by
    intro group hgroup
    obtain ⟨record, hrecord, rfl, -⟩ := hrefs _ group ⟨_, get_mem _ v, rfl, hgroup⟩
    obtain ⟨w, rfl⟩ := get_of_mem hrecord
    exact ⟨w, okOr_eq_ok.mpr ((indexOf_eq_some hsorted).mpr rfl)⟩
  obtain ⟨targets, htargets⟩ := mapM_ok_of_forall hall
  exact ⟨_, by rw [groupsOf, htargets]; rfl⟩

/-- The graph that is searched is the membership relation, once the references are checked. -/
theorem edge_iff_member :
    CycleSearch.Edge registry.groupsOf v w ↔
      registry.Member (registry.principals.get v).id (registry.principals.get w).id := by
  constructor
  · rintro ⟨groups, hgroups, hw⟩
    obtain ⟨targets, htargets, h⟩ := bind_eq_ok.mp hgroups
    cases h
    obtain ⟨group, hgroup, hindex⟩ := (mem_mapM_ok htargets w).mp (List.mem_of_mem_filter hw)
    have hid := (indexOf_eq_some hsorted).mp (okOr_eq_ok.mp hindex)
    exact ⟨_, get_mem _ v, rfl, hid ▸ hgroup⟩
  · intro hmember
    obtain ⟨groups, hgroups⟩ := exists_groupsOf hsorted hrefs v
    obtain ⟨targets, htargets, h⟩ := bind_eq_ok.mp hgroups
    cases h
    refine ⟨_, hgroups, List.mem_filter.mpr ⟨(mem_mapM_ok htargets w).mpr ?_, ?_⟩⟩
    · obtain ⟨record, hrecord, hid, hgroup⟩ := hmember
      obtain ⟨u, rfl⟩ := get_of_mem hrecord
      obtain rfl := get_injective hsorted hid
      exact ⟨_, hgroup, okOr_eq_ok.mpr ((indexOf_eq_some hsorted).mpr rfl)⟩
    · obtain ⟨record, hrecord, hid, hkind, -⟩ := hrefs _ _ hmember
      obtain ⟨u, rfl⟩ := get_of_mem hrecord
      obtain rfl := get_injective hsorted hid
      exact decide_eq_true hkind

/-- A chain of memberships stays within the records. -/
theorem reaches_of_member (h : Relation.TransGen registry.Member (registry.principals.get v).id id) :
    ∃ w, (registry.principals.get w).id = id ∧
      Relation.TransGen (CycleSearch.Edge registry.groupsOf) v w := by
  -- One more membership is one more edge, since its group is a record.
  have hstep : ∀ u group, registry.Member (registry.principals.get u).id group →
      ∃ w, (registry.principals.get w).id = group ∧ CycleSearch.Edge registry.groupsOf u w := by
    intro u group hmember
    obtain ⟨record, hrecord, rfl, -⟩ := hrefs _ _ hmember
    obtain ⟨w, rfl⟩ := get_of_mem hrecord
    exact ⟨w, rfl, (edge_iff_member hsorted hrefs).mpr hmember⟩
  induction h with
  | single hmember =>
    obtain ⟨w, hw, hedge⟩ := hstep v _ hmember
    exact ⟨w, hw, .single hedge⟩
  | tail _ hmember ih =>
    obtain ⟨u, rfl, hreach⟩ := ih
    obtain ⟨w, hw, hedge⟩ := hstep u _ hmember
    exact ⟨w, hw, hreach.tail hedge⟩

theorem hasCycle_iff :
    registry.HasCycle ↔ ∃ v, Relation.TransGen (CycleSearch.Edge registry.groupsOf) v v := by
  constructor
  · rintro ⟨id, hcycle⟩
    obtain ⟨w, hmember, -⟩ := Relation.TransGen.head'_iff.mp hcycle
    obtain ⟨record, hrecord, rfl, -⟩ := hmember
    obtain ⟨v, rfl⟩ := get_of_mem hrecord
    obtain ⟨w, hw, hreach⟩ := reaches_of_member hsorted hrefs hcycle
    obtain rfl := get_injective hsorted hw
    exact ⟨w, hreach⟩
  · rintro ⟨v, hcycle⟩
    refine ⟨(registry.principals.get v).id, hcycle.lift (fun v => (registry.principals.get v).id) ?_⟩
    exact fun _ _ hedge => (edge_iff_member hsorted hrefs).mp hedge

end

/-! ## The cycle search -/

/-- One search leaves its group done, and keeps what is done. -/
theorem searchFrom_ok {colors' : Fin registry.principals.length → Color}
    (hinv : CycleSearch.Inv registry.groupsOf colors [])
    (h : registry.searchFrom grants colors start = .ok colors') :
    CycleSearch.Inv registry.groupsOf colors' [] ∧ (∀ v, colors v = .black → colors' v = .black) ∧
      ((registry.principals.get start).kind = .group → colors' start = .black) := by
  unfold searchFrom at h
  split at h
  next hskip =>
    cases h
    exact ⟨hinv, fun _ hv => hv, fun hkind => hskip.resolve_left (not_not.mpr hkind)⟩
  · obtain ⟨_, -, h⟩ := bind_eq_ok.mp h
    obtain ⟨hend, hkeep, hdone⟩ := CycleSearch.walk_ok (hinv.start start) h
    exact ⟨hend, hkeep, fun _ => hdone _ List.mem_cons_self⟩

theorem searchFrom_error (hinv : CycleSearch.Inv registry.groupsOf colors [])
    (hgrants : ∀ start, grants (.stack start) = true)
    (h : registry.searchFrom grants colors start = .error error) :
    error = .membershipCycle ∧
        (∃ v, Relation.TransGen (CycleSearch.Edge registry.groupsOf) v v) ∨
      ∃ v, registry.groupsOf v = .error error := by
  unfold searchFrom at h
  split at h
  · cases h
  · rw [rejectIf, hgrants] at h
    exact CycleSearch.walk_error (hinv.start start) h

theorem checkCycles_ok (hsorted : Increasing registry.principals) (hrefs : registry.References)
    (h : registry.checkCycles grants = .ok ()) : ¬ registry.HasCycle := by
  rw [hasCycle_iff hsorted hrefs]
  obtain ⟨colors, hcolors, -⟩ := bind_eq_ok.mp h
  have hdone : CycleSearch.Inv registry.groupsOf colors [] ∧
      ∀ v ∈ finRange registry.principals.length,
        (registry.principals.get v).kind = .group → colors v = .black := by
    refine foldlM_ok_induction (P := fun done colors =>
      CycleSearch.Inv registry.groupsOf colors [] ∧
        ∀ v ∈ done, (registry.principals.get v).kind = .group → colors v = .black) hcolors ?_ ?_
    · exact ⟨CycleSearch.inv_white, by simp⟩
    · rintro done start colors colors' ⟨hinv, hdone⟩ hstep
      obtain ⟨hinv', hkeep, hstart⟩ := searchFrom_ok hinv hstep
      refine ⟨hinv', fun v hv hkind => ?_⟩
      obtain hv | hv := List.mem_append.mp hv
      · exact hkeep v (hdone v hv hkind)
      · obtain rfl := List.mem_singleton.mp hv
        exact hstart hkind
  rintro ⟨v, hcycle⟩
  -- A node on a cycle has a membership that leads to it, so it is a group.
  obtain ⟨u, -, hedge⟩ := Relation.TransGen.tail'_iff.mp hcycle
  obtain ⟨record, hrecord, hid, hkind, -⟩ := hrefs _ _ ((edge_iff_member hsorted hrefs).mp hedge)
  obtain ⟨w, rfl⟩ := get_of_mem hrecord
  obtain rfl := get_injective hsorted hid
  exact hdone.1.noCycle w (hdone.2 w (List.mem_finRange w) hkind) hcycle

theorem checkCycles_error (hsorted : Increasing registry.principals) (hrefs : registry.References)
    (hgrants : ∀ start, grants (.stack start) = true)
    (h : registry.checkCycles grants = .error error) :
    error = .membershipCycle ∧ registry.HasCycle := by
  have hfold : (finRange registry.principals.length).foldlM (registry.searchFrom grants)
      (fun _ => .white) = .error error := by
    unfold checkCycles at h
    revert h
    cases (finRange registry.principals.length).foldlM (registry.searchFrom grants) _ with
    | ok colors => exact fun h => by cases h
    | error error' => exact fun h => by cases h; rfl
  obtain ⟨colors, hinv, start, -, hstart⟩ := foldlM_error_induction
    (P := fun colors => CycleSearch.Inv registry.groupsOf colors []) hfold CycleSearch.inv_white
    fun _ _ _ hinv hstep => (searchFrom_ok hinv hstep).1
  obtain ⟨rfl, hcycle⟩ | ⟨v, hv⟩ := searchFrom_error hinv hgrants hstart
  · exact ⟨rfl, (hasCycle_iff hsorted hrefs).mpr hcycle⟩
  · obtain ⟨targets, htargets⟩ := exists_groupsOf hsorted hrefs v
    cases htargets.symm.trans hv

/-! ## Parsing -/

/-- What every accepted registry satisfies. -/
structure Sound (registry : IdentityRegistry) : Prop where
  increasing : Increasing registry.principals
  references : registry.References
  compatibility : registry.principals.Pairwise fun p q =>
    ∀ number, p.compatibility = some number → q.compatibility ≠ some number
  acyclic : ¬ registry.HasCycle

/-- An accepted registry is sound, and one that passes all other checks is rejected for its cycles
exactly when it has any. -/
theorem parse_sound_complete (grants : Reservation → Bool) (image : Bytes)
    (limits : IdentityLimits) (registry : IdentityRegistry) :
    (parse grants image limits = .ok registry → registry.Sound) ∧
      (parseRecords grants image limits = .ok registry → registry.checkReferences = .ok () →
        (∀ start, grants (.stack start) = true) →
        (parse grants image limits = .error .membershipCycle ↔ registry.HasCycle) ∧
          (parse grants image limits = .ok registry ↔ ¬ registry.HasCycle)) := by
  constructor
  · intro h
    simp only [parse, validateMemberships, ok_rules] at h
    obtain ⟨registry', hrecords, _, ⟨_, hreferences, hcycles⟩, h⟩ := h
    cases h
    obtain ⟨hsorted, hcompatibility⟩ := parseRecords_spec hrecords
    have hrefs := references_of_checkReferences hsorted hreferences
    exact ⟨hsorted, hrefs, hcompatibility, checkCycles_ok hsorted hrefs hcycles⟩
  · intro hrecords hreferences hgrants
    obtain ⟨hsorted, -⟩ := parseRecords_spec hrecords
    have hrefs := references_of_checkReferences hsorted hreferences
    have hparse : parse grants image limits =
        (registry.checkCycles grants).bind fun _ => .ok registry := by
      rw [parse, hrecords]
      show (validateMemberships registry grants).bind _ = _
      rw [validateMemberships, hreferences]
      rfl
    rw [hparse]
    cases hcycles : registry.checkCycles grants with
    | ok u =>
      have hacyclic := checkCycles_ok hsorted hrefs hcycles
      simp [Except.bind, hacyclic]
    | error error =>
      obtain ⟨rfl, hcycle⟩ := checkCycles_error hsorted hrefs hgrants hcycles
      simp [Except.bind, hcycle]

/-! ### Four groups in a diamond, and two that contain each other -/

/-- A record of an active group with the given share of the membership table. -/
def sampleRecord (id : UInt8) (start count : ℕ) : Bytes :=
  List.replicate 16 id ++ [2, 1, 0, 0] ++ leBytes 4 0 ++ leBytes 4 0 ++ leBytes 2 0 ++
    leBytes 2 count ++ leBytes 4 start ++ List.replicate 28 0

/-- A registry image with the given checksum. -/
def sampleImage (checksum principals memberships : ℕ) (body : Bytes) : Bytes :=
  registryMagic ++ leBytes 2 1 ++ leBytes 2 0 ++ leBytes 2 64 ++ leBytes 2 64 ++
    leBytes 4 (64 + body.length) ++ leBytes 4 checksum ++ leBytes 4 principals ++
    leBytes 4 memberships ++ leBytes 4 0 ++ leBytes 8 1 ++ List.replicate 20 0 ++ body

def sealedImage (principals memberships : ℕ) (body : Bytes) : Bytes :=
  sampleImage (Checksum.crc32WithZeroedField (sampleImage 0 principals memberships body) 20).toNat
    principals memberships body

/-- Group 1 is in the groups 2 and 3, and these are in group 4. -/
def diamond : Bytes :=
  sealedImage 4 4 (sampleRecord 1 0 2 ++ sampleRecord 2 2 1 ++ sampleRecord 3 3 1 ++
    sampleRecord 4 4 0 ++ List.replicate 16 2 ++ List.replicate 16 3 ++ List.replicate 32 4)

/-- Two groups are in each other. -/
def entangled : Bytes :=
  sealedImage 2 2 (sampleRecord 1 0 1 ++ sampleRecord 2 1 1 ++ List.replicate 16 2 ++
    List.replicate 16 1)

/-- An active group without label or number. -/
def sampleGroup (id : UInt8) (memberships : List UInt8) : PrincipalRecord where
  id := ⟨List.replicate 16 id⟩
  kind := .group
  state := .active
  compatibility := none
  label := []
  memberships := memberships.map fun group => ⟨List.replicate 16 group⟩

theorem diamond_sound_entangled_cycle :
    IdentityRegistry.Sound ⟨1, [sampleGroup 1 [2, 3], sampleGroup 2 [4], sampleGroup 3 [4],
      sampleGroup 4 []]⟩ ∧
      IdentityRegistry.HasCycle ⟨1, [sampleGroup 1 [2], sampleGroup 2 [1]]⟩ := by
  have hdiamond : parse (fun _ => true) diamond .standard = .ok ⟨1, [sampleGroup 1 [2, 3],
      sampleGroup 2 [4], sampleGroup 3 [4], sampleGroup 4 []]⟩ := by decide +kernel
  have hentangled : parse (fun _ => true) entangled .standard = .error .membershipCycle := by
    decide +kernel
  refine ⟨(parse_sound_complete _ diamond .standard _).1 hdiamond, ?_⟩
  exact ((parse_sound_complete (fun _ => true) entangled .standard _).2 (by decide +kernel)
    (by decide +kernel) fun _ => rfl).1.mp hentangled

end IdentityRegistry

end Troe.Identity
