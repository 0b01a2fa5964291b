import Troe.Memory.Mapping

/-!
# The mapping plan keeps W^X over physical aliases

`Inv` is kept by every insertion, accepted or not. It speaks about pairs of mappings; the main
theorem turns it into what an address space lets its users reach.
-/

namespace Troe.Memory

open Lib

variable {m m' : Mapping}

/-! ## Mappings -/

/-- What the constructors establish. -/
structure Mapping.Valid (m : Mapping) : Prop where
  virtual_start_lt : m.virtualRange.start < m.virtualRange.finish
  physical_valid : m.physicalRange.Valid
  byteCount_eq : m.virtualRange.byteCount = m.physicalRange.byteCount
  write_xor_execute : ¬ (m.permissions.write = true ∧ m.permissions.execute = true)

theorem VirtualRange.start_lt_of_fromPages {start pageCount : ℕ} {range : VirtualRange}
    (h : fromPages start pageCount = .ok range) : range.start < range.finish := by
  simp only [fromPages, ok_rules, endOfPages_eq_ok, pure, Except.pure, Except.ok.injEq] at h
  obtain ⟨finish, ⟨-, hcount, -, rfl⟩, rfl⟩ := h
  simp only [basePageSize]
  omega

theorem Mapping.valid_of_new {virtualRange : VirtualRange} {physicalRange : PhysicalRange}
    {permissions : MappingPermissions} {memoryType : MappingMemoryType} {owner : MappingOwner}
    {lifetime : MappingLifetime} {remappable : Bool}
    (hvirtual : virtualRange.start < virtualRange.finish) (hphysical : physicalRange.Valid)
    (h : new virtualRange physicalRange permissions memoryType owner lifetime remappable
      = .ok m) : m.Valid := by
  simp only [new, ok_rules, not_not] at h
  obtain ⟨-, hlength, -, -, -, hwx, -, -, hm⟩ := h
  cases hm
  exact ⟨hvirtual, hphysical, hlength, hwx⟩

theorem Mapping.Built.valid (h : m.Built) : m.Valid := by
  cases h with
  | new hvirtual hphysical h =>
    exact Mapping.valid_of_new (VirtualRange.start_lt_of_fromPages hvirtual)
      ((PhysicalRange.valid_iff_fromPages _).mpr ⟨_, _, hphysical⟩) h
  | user hvirtual hphysical h =>
    simp only [Mapping.user, ok_rules] at h
    obtain ⟨-, -, mapping, hnew, hm⟩ := h
    cases hm
    obtain ⟨hv, hp, hlength, hwx⟩ := Mapping.valid_of_new
      (VirtualRange.start_lt_of_fromPages hvirtual)
      ((PhysicalRange.valid_iff_fromPages _).mpr ⟨_, _, hphysical⟩) hnew
    exact ⟨hv, hp, hlength, hwx⟩
  | identity hphysical h =>
    simp only [Mapping.identity, ok_rules] at h
    obtain ⟨virtualRange, hvirtual, hnew⟩ := h
    exact Mapping.valid_of_new (VirtualRange.start_lt_of_fromPages hvirtual)
      ((PhysicalRange.valid_iff_fromPages _).mpr ⟨_, _, hphysical⟩) hnew

/-- The mapping takes virtual address `v` to physical address `p`. -/
def Mapping.Maps (m : Mapping) (v p : ℕ) : Prop :=
  m.virtualRange.start ≤ v ∧ v < m.virtualRange.finish ∧
    p = m.physicalRange.start + (v - m.virtualRange.start)

/-- Physical memory is reached inside the physical range only. -/
theorem Mapping.Valid.bounds_of_maps (h : m.Valid) {v p : ℕ} (hmaps : m.Maps v p) :
    m.physicalRange.start ≤ p ∧ p < m.physicalRange.finish := by
  obtain ⟨hstart, hfinish, rfl⟩ := hmaps
  have hlength := h.byteCount_eq
  simp only [VirtualRange.byteCount, PhysicalRange.byteCount] at hlength
  omega

/-- Two mappings whose physical ranges overlap may be used side by side. -/
def AliasSafe (m m' : Mapping) : Prop :=
  rangesOverlap m.physicalRange m'.physicalRange = true → physicalAliasIsSafe m m' = true

theorem rangesOverlap_comm (r r' : PhysicalRange) : rangesOverlap r r' = rangesOverlap r' r :=
  Bool.and_comm _ _

theorem physicalAliasIsSafe_iff : physicalAliasIsSafe m m' = true ↔ m.memoryType = m'.memoryType ∧
      ¬ ((m.permissions.write ∨ m'.permissions.write) ∧
        (m.permissions.execute ∨ m'.permissions.execute)) := by
  unfold physicalAliasIsSafe
  by_cases h : m.memoryType = m'.memoryType
  · simp only [h, ne_eq, not_true_eq_false, if_false, true_and, Bool.not_eq_true',
      ← Bool.not_eq_true, Bool.and_eq_true, Bool.or_eq_true]
  · simp [h]

theorem AliasSafe.symm (h : AliasSafe m m') : AliasSafe m' m := by
  intro hoverlap
  rw [rangesOverlap_comm] at hoverlap
  have hsafe := h hoverlap
  rw [physicalAliasIsSafe_iff] at hsafe ⊢
  refine ⟨hsafe.1.symm, ?_⟩
  rw [or_comm, or_comm (a := m'.permissions.execute = true)]
  exact hsafe.2

/-- A mapping that is not writable and executable may be used beside itself. -/
theorem Mapping.Valid.aliasSafe_self (h : m.Valid) : AliasSafe m m := by
  intro _
  rw [physicalAliasIsSafe_iff, or_self, or_self]
  exact ⟨rfl, h.write_xor_execute⟩

/-! ## Insertion -/

/-- The first mapping lies below the second. -/
def VirtuallyBefore (m m' : Mapping) : Prop := m.virtualRange.finish ≤ m'.virtualRange.start

namespace MappingPlan

variable {front back : List Mapping} {p : Mapping → Bool}

/-- What holds of every plan. -/
structure Inv (plan : MappingPlan) : Prop where
  valid : ∀ m ∈ plan.mappings, m.Valid
  sorted : plan.mappings.Pairwise VirtuallyBefore
  safe : ∀ m ∈ plan.mappings, ∀ m' ∈ plan.mappings, AliasSafe m m'

theorem inv_new : new.Inv where
  valid := by simp [new]
  sorted := .nil
  safe := by simp [new]

/-- Sorted mappings stay sorted around a new one that starts behind the end of its predecessor
and ends before the start of its successor. -/
theorem pairwise_insert {mapping : Mapping}
    (hvalid : ∀ m ∈ front ++ back, m.Valid) (hsorted : (front ++ back).Pairwise VirtuallyBefore)
    (hfront : ∀ m ∈ front.getLast?, VirtuallyBefore m mapping)
    (hback : ∀ m ∈ back.head?, VirtuallyBefore mapping m) :
    (front ++ mapping :: back).Pairwise VirtuallyBefore := by
  obtain ⟨hf, hb, hfb⟩ := List.pairwise_append.mp hsorted
  have hall : ∀ m ∈ back, VirtuallyBefore mapping m := by
    cases back with
    | nil => simp
    | cons next back =>
      have hnext : VirtuallyBefore mapping next := hback next rfl
      have hlt := (hvalid next (by simp)).virtual_start_lt
      intro m hm
      rcases List.mem_cons.mp hm with rfl | hm
      · exact hnext
      · have hbefore : VirtuallyBefore next m := (List.pairwise_cons.mp hb).1 m hm
        unfold VirtuallyBefore at *
        omega
  have hall' : ∀ m ∈ front, VirtuallyBefore m mapping := by
    rcases List.eq_nil_or_concat' front with rfl | ⟨front, last, rfl⟩
    · simp
    · have hlast : VirtuallyBefore last mapping := hfront last (by simp)
      have hlt := (hvalid last (by simp)).virtual_start_lt
      intro m hm
      rcases List.mem_append.mp hm with hm | hm
      · have hbefore : VirtuallyBefore m last :=
          (List.pairwise_append.mp hf).2.2 m hm last (by simp)
        unfold VirtuallyBefore at *
        omega
      · rw [List.mem_singleton.mp hm]
        exact hlast
  refine List.pairwise_append.mpr ⟨hf, List.pairwise_cons.mpr ⟨hall, hb⟩, ?_⟩
  intro m hm m' hm'
  rcases List.mem_cons.mp hm' with rfl | hm'
  · exact hall' m hm
  · exact hfb m hm m' hm'

variable {plan : MappingPlan} {mapping : Mapping}

/-- The search loop of `insert` passes when the new mapping is safe beside every other one. -/
theorem wp_checkAliases {mappings : List Mapping} {Q : Unit → MappingPlan → Prop}
    {R : MappingPlanError → MappingPlan → Prop}
    (hQ : (∀ m ∈ mappings, AliasSafe m mapping) → Q () plan)
    (hR : ∀ e, R e plan) :
    (Act.forEach mappings fun existing =>
      Act.reject (rangesOverlap existing.physicalRange mapping.physicalRange = true ∧
        physicalAliasIsSafe existing mapping = false) MappingPlanError.physicalOverlap).wp Q R
      plan := by
  apply Act.wp_forEach fun visited plan' => plan' = plan ∧ ∀ m ∈ visited, AliasSafe m mapping
  · exact ⟨rfl, by simp⟩
  · rintro visited existing _ - ⟨rfl, hvisited⟩
    rw [Act.wp_reject]
    refine ⟨fun _ => hR _, fun hsafe => ⟨rfl, ?_⟩⟩
    rw [List.forall_mem_append]
    refine ⟨hvisited, ?_⟩
    simp only [List.mem_singleton, forall_eq]
    intro hoverlap
    by_contra hunsafe
    exact hsafe ⟨hoverlap, by simpa using hunsafe⟩
  · rintro plan' ⟨rfl, hall⟩
    exact hQ hall

/-- The neighbours that `insert` compares with are the ends of the two parts of the plan. -/
theorem forall_getLast_of_not_any
    (h : ¬ (0 < front.length ∧ (front ++ back)[front.length - 1]?.any p = true)) :
    ∀ m ∈ front.getLast?, p m = false := by
  intro m hm
  have hlength : 0 < front.length := by
    cases front with
    | nil => simp at hm
    | cons => simp
  have hget : (front ++ back)[front.length - 1]? = some m := by
    rw [List.getElem?_append_left (by omega), ← List.getLast?_eq_getElem?]
    exact hm
  by_contra hp
  exact h ⟨hlength, by simpa [hget] using hp⟩

theorem forall_head_of_not_any
    (h : ¬ (front ++ back)[front.length]?.any p = true) : ∀ m ∈ back.head?, p m = false := by
  intro m hm
  have hget : (front ++ back)[front.length]? = some m := by
    rw [List.getElem?_append_right (le_rfl), Nat.sub_self, ← List.head?_eq_getElem?]
    exact hm
  by_contra hp
  exact h (by simpa [hget] using hp)

theorem insertIdx_length_append (front back : List Mapping) (m : Mapping) :
    (front ++ back).insertIdx front.length m = front ++ m :: back := by
  induction front with
  | nil => rfl
  | cons m' front ih => simpa [List.insertIdx_succ_cons] using ih

/-- `insert` keeps the invariant; a rejected mapping leaves the plan as it was. -/
theorem Inv.wp_insert (h : plan.Inv) (hmapping : mapping.Valid) (granted : Bool) :
    (insert mapping granted).wp (fun _ plan' => plan'.Inv) (fun _ plan' => plan' = plan) plan := by
  unfold insert partitionPoint
  simp only [Act.wp_bind, Act.wp_get, Act.wp_reject, implies_true, true_and]
  intro _
  -- the plan is split at the partition point
  generalize hfront : plan.mappings.takeWhile
    (fun existing => existing.virtualRange.start < mapping.virtualRange.start) = front
  obtain ⟨back, hsplit⟩ : ∃ back, plan.mappings = front ++ back :=
    ⟨_, hfront ▸ List.takeWhile_append_dropWhile.symm⟩
  rw [hsplit]
  intro hprev hnext
  apply wp_checkAliases
  swap
  · intro e
    rfl
  intro hsafe
  rw [← hsplit] at hsafe
  refine ⟨fun _ => rfl, fun _ => ?_⟩
  rw [Act.wp_modify, hsplit, insertIdx_length_append]
  have hmem : ∀ m ∈ front ++ mapping :: back, m = mapping ∨ m ∈ plan.mappings := by
    intro m hm
    rw [hsplit]
    simp only [List.mem_append, List.mem_cons] at hm ⊢
    tauto
  refine ⟨?_, ?_, ?_⟩
  · intro m hm
    rcases hmem m hm with rfl | hm
    · exact hmapping
    · exact h.valid m hm
  · apply pairwise_insert (hsplit ▸ h.valid) (hsplit ▸ h.sorted)
    · intro m hm
      have := forall_getLast_of_not_any hprev m hm
      simpa [VirtuallyBefore] using this
    · intro m hm
      have := forall_head_of_not_any hnext m hm
      simpa [VirtuallyBefore] using this
  · intro m hm m' hm'
    rcases hmem m hm with heq | hold <;> rcases hmem m' hm' with heq' | hold'
    · rw [heq, heq']
      exact hmapping.aliasSafe_self
    · rw [heq]
      exact (hsafe m' hold').symm
    · rw [heq']
      exact hsafe m hold
    · exact h.safe m hold m' hold'

/-! ## Plans -/

/-- One call of `insert`: a mapping that was constructed, and the heap's answer. -/
structure Insertion where
  mapping : Mapping
  built : mapping.Built
  granted : Bool

/-- The plan after a sequence of insertions, accepted or rejected. -/
def after (insertions : List Insertion) : MappingPlan :=
  insertions.foldl (fun plan i => (insert i.mapping i.granted plan).2) new

theorem Inv.insert (h : plan.Inv) (i : Insertion) :
    (insert i.mapping i.granted plan).2.Inv ∧
      ∀ e, (MappingPlan.insert i.mapping i.granted plan).1 = .error e →
        (MappingPlan.insert i.mapping i.granted plan).2 = plan := by
  obtain ⟨hok, herror⟩ := Act.wp_iff.mp (h.wp_insert i.built.valid i.granted)
  rcases hresult : MappingPlan.insert i.mapping i.granted plan with ⟨e | u, plan'⟩
  · obtain rfl := herror e plan' hresult
    exact ⟨h, fun _ _ => rfl⟩
  · exact ⟨hok u plan' hresult, by simp⟩

theorem inv_after (insertions : List Insertion) : (after insertions).Inv := by
  suffices h : ∀ plan : MappingPlan, plan.Inv →
      (insertions.foldl (fun plan i => (MappingPlan.insert i.mapping i.granted plan).2) plan).Inv
    from h new inv_new
  induction insertions with
  | nil => exact fun plan h => h
  | cons i insertions ih => exact fun plan h => ih _ (h.insert i).1

/-- The plan's own check finds nothing. -/
theorem Inv.enforcesGlobalWXorX (h : plan.Inv) : plan.enforcesGlobalWXorX = true := by
  suffices hlist : ∀ mappings : List Mapping, (∀ m ∈ mappings, m ∈ plan.mappings) →
      aliasesAreSafe mappings = true from hlist _ fun _ hm => hm
  intro mappings
  induction mappings with
  | nil => exact fun _ => rfl
  | cons m rest ih =>
    intro hmem
    obtain ⟨hm, hrest⟩ := List.forall_mem_cons.mp hmem
    have hwx := (h.valid m hm).write_xor_execute
    have hany : (rest.any fun other =>
        rangesOverlap m.physicalRange other.physicalRange &&
          !physicalAliasIsSafe m other) = false := by
      rw [List.any_eq_false]
      intro other hother
      have hsafe : rangesOverlap m.physicalRange other.physicalRange = true →
          physicalAliasIsSafe m other = true := h.safe m hm other (hrest other hother)
      simpa using hsafe
    rw [aliasesAreSafe, if_neg (by simpa using hwx), hany]
    exact ih hrest

/-- In every plan the virtual ranges are sorted and disjoint, and no physical address is reached by
one mapping that may write it and one that may execute it, or under two memory types; a rejected
insertion leaves the plan as it was. -/
theorem reachable_plan_safe (insertions : List Insertion) :
    (after insertions).mappings.Pairwise VirtuallyBefore ∧
    (∀ m ∈ (after insertions).mappings,
      ¬ (m.permissions.write = true ∧ m.permissions.execute = true)) ∧
    (∀ m ∈ (after insertions).mappings, ∀ m' ∈ (after insertions).mappings, ∀ v v' p,
      m.Maps v p → m'.Maps v' p →
        ¬ (m.permissions.write = true ∧ m'.permissions.execute = true) ∧
          m.memoryType = m'.memoryType) ∧
    ∀ (i : Insertion) (e : MappingPlanError),
      (MappingPlan.insert i.mapping i.granted (after insertions)).1 = .error e →
        (MappingPlan.insert i.mapping i.granted (after insertions)).2 = after insertions := by
  have h := inv_after insertions
  refine ⟨h.sorted, fun m hm => (h.valid m hm).write_xor_execute, ?_, fun i => (h.insert i).2⟩
  intro m hm m' hm' v v' p hmaps hmaps'
  have hp := (h.valid m hm).bounds_of_maps hmaps
  have hp' := (h.valid m' hm').bounds_of_maps hmaps'
  have hoverlap : rangesOverlap m.physicalRange m'.physicalRange = true := by
    simp only [rangesOverlap, Bool.and_eq_true, decide_eq_true_eq]
    omega
  obtain ⟨htype, hwx⟩ := physicalAliasIsSafe_iff.mp (h.safe m hm m' hm' hoverlap)
  exact ⟨fun hboth => hwx ⟨.inl hboth.1, .inr hboth.2⟩, htype⟩

end MappingPlan

end Troe.Memory
