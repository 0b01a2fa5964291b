import Troe.Task.ThreadCompletion

/-!
# Admission and reaping

The calls that add and remove records and processes. `usage` and `committed_pages` are sums over
the slots, so that what `prepare` checks is what the invariant keeps.
-/

namespace Troe.Task

open Lib
open Record (charge chargeOn)

namespace ThreadTable

variable {self self' : ThreadTable} {id : ThreadId} {r : Record} {owner : ProcessId}
  {Q : ThreadId → ThreadTable → Prop} {R : ThreadError → ThreadTable → Prop} {index : ℕ}
  {creator : Option ThreadId} {resources : ThreadResources}

/-! ## Accounts -/

theorem committedPages_eq (self : ThreadTable) : self.committedPages = self.slots.sum charge := by
  unfold committedPages records
  rw [GenSlab.sum_filter]
  congr 1
  funext r
  unfold charge
  cases r.snapshot.resourcesReleased <;> rfl

theorem usage_snd (self : ThreadTable) (owner : ProcessId) :
    (self.usage owner).2 = self.slots.sum (chargeOn owner) := by
  unfold usage records
  dsimp only
  rw [GenSlab.sum_filter]
  congr 1
  funext r
  unfold chargeOn charge
  by_cases hr : r.snapshot.id.process = owner <;> simp [hr]

/-- A process without records. -/
theorem find_process_ne (h : (self.usage owner).1 = 0) (hr : self.find id = some r) :
    id.process ≠ owner := by
  intro heq
  have hmem : r ∈ self.records.filter (·.snapshot.id.process = owner) :=
    List.mem_filter.mpr ⟨mem_records hr, by simp [(find_eq_some hr).2, heq]⟩
  rw [List.length_eq_zero_iff.mp h] at hmem
  cases hmem

/-- The account of a process that has no records is empty. -/
theorem sum_chargeOn_eq_zero (hnone : ∀ k r, self.slots.value k = some r →
    r.snapshot.id.process ≠ owner) : self.slots.sum (chargeOn owner) = 0 :=
  GenSlab.sum_eq_zero fun k r hr => if_neg (hnone k r hr)

/-! ## New records -/

/-- What a new record must be like. -/
structure Fresh (r : Record) : Prop where
  released : r.snapshot.resourcesReleased = false
  state : r.snapshot.state ≠ .running
  outgoing : r.outgoingJoin = none
  incoming : r.incomingJoin = none
  joined : r.joined = false

/-- A new record, within the quotas and with a new reservation. -/
theorem Lifecycle.occupied {i : ℕ} {p : ThreadProcess} (h : Lifecycle self)
    (hindex : r.snapshot.id.slot < self.slots.length)
    (hfree : self.slots.value r.snapshot.id.slot = none)
    (hgeneration : r.snapshot.id.generation = self.slots.generation r.snapshot.id.slot + 1)
    (hfresh : Fresh r) (hp : slotAt self.processes i = some p)
    (hprocess : p.id = r.snapshot.id.process)
    (hquota : self.slots.sum (chargeOn p.id) + r.resources.pages ≤ p.quota.pages)
    (hlimit : self.slots.sum charge + r.resources.pages ≤ self.pageLimit)
    (hreservation : ∀ t x, self.find t = some x → x.snapshot.resourcesReleased = false →
      x.resources.reservation ≠ r.resources.reservation) :
    Advances self { self with slots := self.slots.occupy r.snapshot.id.slot r } := by
  have hfind := find_occupied hindex hfree
  have hgone : self.find r.snapshot.id = none := by rw [find, hfree, Option.filter_none]
  -- a record that is found afterwards is the new one or was there
  have hcases : ∀ t x, find { self with slots := self.slots.occupy r.snapshot.id.slot r } t = some x →
      t = r.snapshot.id ∧ x = r ∨ self.find t = some x := by
    intro t x hx
    rw [hfind] at hx
    split at hx
    next ht => exact .inl ⟨ht, (Option.some.inj hx).symm⟩
    · exact .inr hx
  have hkeep : ∀ t x, self.find t = some x →
      find { self with slots := self.slots.occupy r.snapshot.id.slot r } t = some x := by
    intro t x hx
    rw [hfind, if_neg, hx]
    intro ht
    rw [ht, hgone] at hx
    cases hx
  have hcharge : r.charge = r.resources.pages := by
    rw [charge, hfresh.released]
    rfl
  refine ⟨⟨fun k x hx => ?_, h.unique, fun t x hx => ?_, fun j q hq => ?_, ?_,
    fun t t' x x' hx hx' hreleased hreleased' heq => ?_, fun t t' x x' hx hx' hrun hrun' => ?_,
    ⟨fun t x c hx hc => ?_, fun t x c hx hc => ?_, fun t x hx hjoined => ?_⟩⟩,
    ⟨fun k => GenSlab.generation_le_modify (fun _ => Nat.le_succ _) k, fun t x hx hle => ?_, rfl⟩⟩
  · rw [GenSlab.value_occupy hindex] at hx
    rw [GenSlab.generation_occupy hindex]
    by_cases hk : k = r.snapshot.id.slot
    · rw [if_pos hk, Option.some.injEq] at hx
      rw [if_pos hk, ← hx, hgeneration]
      exact ⟨hk.symm, rfl⟩
    · rw [if_neg hk] at hx
      rw [if_neg hk]
      exact h.slot k x hx
  · rcases hcases t x hx with ⟨ht, -⟩ | hold
    · exact ⟨i, p, hp, by rw [ht, hprocess]⟩
    · exact h.registered t x hold
  · rw [GenSlab.sum_occupy hindex hfree]
    by_cases hid : q.id = p.id
    · obtain rfl := h.unique j i q p hq hp hid
      obtain rfl := Option.mem_unique hq hp
      rw [chargeOn, if_pos hprocess.symm, hcharge]
      exact hquota
    · rw [chargeOn, if_neg (by rw [← hprocess]; exact Ne.symm hid)]
      exact h.quota j q hq
  · rw [GenSlab.sum_occupy hindex hfree, hcharge]
    exact hlimit
  · rcases hcases t x hx with ⟨ht, hxr⟩ | hold <;>
      rcases hcases t' x' hx' with ⟨ht', hxr'⟩ | hold'
    · rw [ht, ht']
    · rw [hxr] at heq
      exact absurd heq.symm (hreservation t' x' hold' hreleased')
    · rw [hxr'] at heq
      exact absurd heq (hreservation t x hold hreleased)
    · exact h.reservations t t' x x' hold hold' hreleased hreleased' heq
  · rcases hcases t x hx with ⟨ht, hxr⟩ | hold
    · rw [hxr] at hrun
      exact absurd hrun hfresh.state
    · rcases hcases t' x' hx' with ⟨ht', hxr'⟩ | hold'
      · rw [hxr'] at hrun'
        exact absurd hrun' hfresh.state
      · exact h.running t t' x x' hold hold' hrun hrun'
  · rcases hcases t x hx with ⟨-, hxr⟩ | hold
    · rw [hxr, hfresh.outgoing] at hc
      cases hc
    · obtain ⟨hcaller, hproc, hself, x', hx', hin⟩ := h.joins.outgoing t x c hold hc
      exact ⟨hcaller, hproc, hself, x', hkeep _ x' hx', hin⟩
  · rcases hcases t x hx with ⟨-, hxr⟩ | hold
    · rw [hxr, hfresh.incoming] at hc
      cases hc
    · obtain ⟨htarget, x', hx', hout⟩ := h.joins.incoming t x c hold hc
      exact ⟨htarget, x', hkeep _ x' hx', hout⟩
  · rcases hcases t x hx with ⟨-, hxr⟩ | hold
    · rw [hxr, hfresh.joined] at hjoined
      cases hjoined
    · exact h.joins.joined t x hold hjoined
  · rcases hcases t x hx with ⟨ht, -⟩ | hold
    · rw [ht] at hle
      omega
    · exact ⟨x, hold, fun hj => hj⟩

theorem fresh_preparedRecord (id : ThreadId) (processSlot : ℕ) (creator : Option ThreadId)
    (resources : ThreadResources) : Fresh (preparedRecord id processSlot creator resources) :=
  ⟨rfl, by simp [preparedRecord], rfl, rfl, rfl⟩

section

variable (h : Lifecycle self)
include h

theorem wp_prepare (hR : ∀ e, R e self)
    (hQ : ∀ t self' p, Advances self self' → self.process owner = .ok p →
      self'.processes = self.processes → Q t self') :
    (prepare owner creator resources).wp Q R self := by
  simp only [prepare, wp_quiet, hR, not_or]
  intro processSlot _ p hp _ _ hreservation hquota index hindex
  obtain ⟨hlt, hfree⟩ := GenSlab.firstFree_eq_some hindex
  obtain ⟨hid, i, hi⟩ := process_eq_ok hp
  obtain ⟨-, hpages, hlimit⟩ := hquota
  -- a sum that does not overflow and is not too large
  have hsum : ∀ {a b limit : ℕ}, ¬ (checkedAdd 64 a b).all (limit < ·) = true → a + b ≤ limit := by
    intro a b limit hall
    cases hadd : checkedAdd 64 a b with
    | none =>
      rw [hadd] at hall
      exact absurd rfl hall
    | some c =>
      obtain ⟨-, rfl⟩ := checkedAdd_eq_some.mp hadd
      rw [hadd] at hall
      simpa using hall
  let id : ThreadId :=
    { process := owner, slot := index, generation := self.slots.generation index + 1 }
  refine hQ _ _ p (h.occupied (r := preparedRecord id processSlot creator resources) hlt hfree rfl
    (fresh_preparedRecord _ _ _ _) hi hid ?_ ?_ ?_) hp rfl
  · rw [hid, ← usage_snd]
    exact hsum hpages
  · rw [← committedPages_eq]
    exact hsum hlimit
  · intro t x hx hreleased heq
    refine hreservation (List.any_eq_true.mpr ⟨x, mem_records hx, ?_⟩)
    simp [hreleased, heq, preparedRecord]

theorem prepare_safe : Safe (prepare owner creator resources) self :=
  wp_prepare h (fun _ => rfl) fun _ _ _ hadv _ _ => hadv

theorem prepareInitial_safe : Safe (prepareInitial owner resources) self := by
  unfold Safe prepareInitial
  simp only [wp_quiet]
  intro _ _ _
  refine wp_prepare h (fun _ => rfl) fun t mid p hadv hp hprocesses => ?_
  -- the process was found before, so that its update does not fail
  obtain ⟨hid, i, hi⟩ := process_eq_ok hp
  rw [← hprocesses] at hi
  obtain ⟨q, hq⟩ := exists_process hi hid
  refine wp_mapProcess (fun _ => ⟨rfl, rfl⟩) hq fun self' hm => ?_
  have hlast := hadv.lifecycle.mapped hm .refl (hadv.lifecycle.running.of_same fun _ _ _ h => h)
    (hadv.lifecycle.joins.of_same fun _ _ _ => ⟨rfl, rfl, .inl⟩)
  exact ⟨hlast.lifecycle, hadv.ages.trans hlast.ages⟩

theorem prepareWorker_safe {creator : ThreadId} :
    Safe (prepareWorker owner creator resources) self := by
  unfold Safe prepareWorker
  simp only [wp_quiet]
  exact fun _ _ => prepare_safe h

end

/-! ## Reaping -/

variable (h : Lifecycle self)
include h

/-- A record nobody joins goes. -/
theorem Lifecycle.vacated (hr : self.find id = some r) (hout : r.outgoingJoin = none)
    (hin : r.incomingJoin = none) :
    Advances self { self with slots := self.slots.put id.slot none } := by
  obtain ⟨hvalue, hid⟩ := find_eq_some hr
  have hfind := find_vacated hr
  have hold : ∀ t x, find { self with slots := self.slots.put id.slot none } t = some x →
      self.find t = some x := by
    intro t x hx
    rw [hfind] at hx
    split at hx
    · cases hx
    · exact hx
  have hvalues : ∀ k x, (self.slots.put id.slot none).value k = some x →
      self.slots.value k = some x := by
    intro k x hx
    rw [GenSlab.value_put (GenSlab.lt_length_of_value hvalue)] at hx
    split at hx
    · cases hx
    · exact hx
  have hsum : ∀ f : Record → ℕ, (self.slots.put id.slot none).sum f ≤ self.slots.sum f := by
    intro f
    refine GenSlab.sum_le (GenSlab.length_put _) fun k => ?_
    cases hx : (self.slots.put id.slot none).value k with
    | none => exact Nat.zero_le _
    | some x =>
      rw [hvalues k x hx]
  refine ⟨⟨fun k x hx => ?_, h.unique, fun t x hx => h.registered t x (hold t x hx),
    fun j q hq => Nat.le_trans (hsum _) (h.quota j q hq), Nat.le_trans (hsum _) h.limit,
    fun t t' x x' hx hx' => h.reservations t t' x x' (hold t x hx) (hold t' x' hx'),
    fun t t' x x' hx hx' => h.running t t' x x' (hold t x hx) (hold t' x' hx'),
    ⟨fun t x c hx hc => ?_, fun t x c hx hc => ?_, fun t x hx => h.joins.joined t x (hold t x hx)⟩⟩,
    ⟨fun k => Nat.le_of_eq (GenSlab.generation_put _ _).symm,
      fun t x hx _ => ⟨x, hold t x hx, fun hj => hj⟩, rfl⟩⟩
  · rw [GenSlab.generation_put]
    exact h.slot k x (hvalues k x hx)
  · obtain ⟨hcaller, hprocess, hne, x', hx', hclaim⟩ := h.joins.outgoing t x c (hold t x hx) hc
    refine ⟨hcaller, hprocess, hne, x', ?_, hclaim⟩
    rw [hfind, if_neg, hx']
    intro heq
    rw [heq] at hx'
    rw [Option.mem_unique hx' hr, hin] at hclaim
    cases hclaim
  · obtain ⟨htarget, x', hx', hclaim⟩ := h.joins.incoming t x c (hold t x hx) hc
    refine ⟨htarget, x', ?_, hclaim⟩
    rw [hfind, if_neg, hx']
    intro heq
    rw [heq] at hx'
    rw [Option.mem_unique hx' hr, hout] at hclaim
    cases hclaim

/-- `reap` removes a released record that nobody joins. -/
theorem wp_reap {Q : Unit → ThreadTable → Prop} (hR : ∀ e, R e self)
    (hQ : ∀ self', id.process = owner → Advances self self' → self'.find id = none →
      id.generation ≤ self'.slots.generation id.slot → Q () self') :
    (reap owner id).wp Q R self := by
  simp only [reap, wp_quiet, record_eq_ok, hR, not_or, Option.not_isSome_iff_eq_none]
  rintro r ⟨hprocess, hr⟩ ⟨-, hin, hout⟩ _
  obtain ⟨hvalue, hid⟩ := find_eq_some hr
  refine hQ _ hprocess (h.vacated hr hout hin) ?_ ?_
  · rw [find_vacated hr, if_pos rfl]
  · refine Nat.le_of_eq ?_
    rw [GenSlab.generation_put, ← (h.slot _ r hvalue).2, hid]

theorem reap_safe : Safe (reap owner id) self :=
  wp_reap h (fun _ => rfl) fun _ _ hadv _ _ => hadv

/-! ## Processes come and go -/

/-- Other processes for the same records. -/
theorem Lifecycle.reregistered {processes : List (Option ThreadProcess)}
    (hunique : ∀ i j p p', slotAt processes i = some p → slotAt processes j = some p' →
      p.id = p'.id → i = j)
    (hregistered : ∀ t r, self.find t = some r →
      ∃ i p, slotAt processes i = some p ∧ p.id = t.process)
    (hquota : ∀ i p, slotAt processes i = some p →
      self.slots.sum (chargeOn p.id) ≤ p.quota.pages) : Advances self { self with processes } :=
  ⟨⟨h.slot, hunique, hregistered, hquota, h.limit, h.reservations, h.running, h.joins⟩,
    ⟨fun _ => le_rfl, (Ages.refl self).find, rfl⟩⟩

theorem registerProcess_safe {quota : ThreadQuota} : Safe (registerProcess owner quota) self := by
  unfold Safe registerProcess
  simp only [wp_quiet]
  intro _ hnew slot hslot
  obtain ⟨hlt, hnone, -⟩ := List.findIdx?_eq_some_iff_getElem.mp hslot
  have hother : ∀ j p, slotAt self.processes j = some p → p.id ≠ owner := by
    intro j p hp heq
    refine hnew (List.any_eq_true.mpr ⟨p, mem_liveProcesses.mpr ⟨j, hp⟩, ?_⟩)
    exact decide_eq_true heq
  have hempty : slotAt self.processes slot = none := by
    rw [slotAt, List.getElem?_eq_getElem hlt]
    exact Option.isNone_iff_eq_none.mp hnone
  refine h.reregistered (fun i j p p' hp hp' heq => ?_) (fun t r hr => ?_) fun i p hp => ?_
  · rw [slotAt_set hlt] at hp hp'
    by_cases hi : i = slot <;> by_cases hj : j = slot
    · rw [hi, hj]
    · rw [if_pos hi, Option.some.injEq] at hp
      rw [if_neg hj] at hp'
      rw [← hp] at heq
      exact absurd heq.symm (hother j p' hp')
    · rw [if_neg hi] at hp
      rw [if_pos hj, Option.some.injEq] at hp'
      rw [← hp'] at heq
      exact absurd heq (hother i p hp)
    · rw [if_neg hi] at hp
      rw [if_neg hj] at hp'
      exact h.unique i j p p' hp hp' heq
  · obtain ⟨i, p, hp, hid⟩ := h.registered t r hr
    refine ⟨i, p, ?_, hid⟩
    rw [slotAt_set hlt, if_neg, hp]
    intro hi
    rw [hi, hempty] at hp
    cases hp
  · rw [slotAt_set hlt] at hp
    by_cases hi : i = slot
    · rw [if_pos hi, Option.some.injEq] at hp
      -- records belong to registered processes, and the new one was not among them
      rw [← hp, sum_chargeOn_eq_zero fun k r hr heq => ?_]
      · exact Nat.zero_le _
      · obtain ⟨j, q, hq, hid⟩ := h.registered _ r (h.find_of_value hr)
        exact hother j q hq (hid.trans heq)
    · rw [if_neg hi] at hp
      exact h.quota i p hp

theorem removeProcess_safe : Safe (removeProcess owner) self := by
  unfold Safe removeProcess
  simp only [wp_quiet]
  intro hnone _ _ _ slot hslot
  rw [not_not] at hnone
  obtain ⟨hlt, howner, -⟩ := List.findIdx?_eq_some_iff_getElem.mp hslot
  have hset : ∀ j p, slotAt (self.processes.set slot none) j = some p →
      slotAt self.processes j = some p := by
    intro j p hp
    rw [slotAt_set hlt] at hp
    split at hp
    · cases hp
    · exact hp
  refine h.reregistered (fun i j p p' hp hp' heq => ?_) (fun t r hr => ?_) fun i p hp => ?_
  · exact h.unique i j p p' (hset i p hp) (hset j p' hp') heq
  · obtain ⟨i, p, hp, hid⟩ := h.registered t r hr
    refine ⟨i, p, ?_, hid⟩
    rw [slotAt_set hlt, if_neg, hp]
    intro hi
    rw [slotAt, hi, List.getElem?_eq_getElem hlt, Option.getD_some] at hp
    rw [hp, Option.any_some, decide_eq_true_eq] at howner
    exact find_process_ne hnone hr (hid.symm.trans howner)
  · exact h.quota i p (hset i p hp)

end ThreadTable

end Troe.Task
