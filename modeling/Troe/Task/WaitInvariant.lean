import Troe.Task.Wait

/-!
# Waits are resolved once

`Consistent` relates the slots of the wait table to its history: a published key is in its slot or
spent, and the spent keys are the resolved ones. Every operation publishes at most one wait and
resolves some, and keeps the invariant whether it is accepted or rejected.
-/

namespace Troe.Task

open Lib KeySlab
open List (mem_append mem_singleton nodup_nil)
open KeySlot (store vacate)

theorem PendingCaller.conflicts_comm (self other : PendingCaller) :
    self.conflicts other = other.conflicts self := by
  unfold conflicts
  rw [Bool.eq_iff_iff, decide_eq_true_eq, decide_eq_true_eq]
  constructor
  · rintro ⟨htask, hthread⟩
    exact ⟨htask.symm, by tauto⟩
  · rintro ⟨htask, hthread⟩
    exact ⟨htask.symm, by tauto⟩

/-- The keys that were published, in order. -/
def publishedKeys (history : List WaitEvent) : List WaitKey :=
  history.filterMap fun
    | .published key _ => some key
    | .resolved _ _ _ => none

/-- The keys that were resolved, in order. -/
def resolvedKeys (history : List WaitEvent) : List WaitKey :=
  history.filterMap fun
    | .published _ _ => none
    | .resolved key _ _ => some key

@[simp] theorem publishedKeys_append (history new : List WaitEvent) :
    publishedKeys (history ++ new) = publishedKeys history ++ publishedKeys new :=
  List.filterMap_append

@[simp] theorem resolvedKeys_append (history new : List WaitEvent) :
    resolvedKeys (history ++ new) = resolvedKeys history ++ resolvedKeys new :=
  List.filterMap_append

variable {history : List WaitEvent} {key : WaitKey}

theorem mem_publishedKeys :
    key ∈ publishedKeys history ↔ ∃ spec, .published key spec ∈ history := by
  unfold publishedKeys
  rw [List.mem_filterMap]
  constructor
  · rintro ⟨event, hmem, hkey⟩
    cases event with
    | published k spec =>
      cases hkey
      exact ⟨spec, hmem⟩
    | resolved k spec reason => cases hkey
  · rintro ⟨spec, hmem⟩
    exact ⟨_, hmem, rfl⟩

theorem mem_resolvedKeys :
    key ∈ resolvedKeys history ↔ ∃ spec reason, .resolved key spec reason ∈ history := by
  unfold resolvedKeys
  rw [List.mem_filterMap]
  constructor
  · rintro ⟨event, hmem, hkey⟩
    cases event with
    | published k spec => cases hkey
    | resolved k spec reason =>
      cases hkey
      exact ⟨spec, reason, hmem⟩
  · rintro ⟨spec, reason, hmem⟩
    exact ⟨_, hmem, rfl⟩

variable {slots : KeySlab WaitRecord Unit} {history : List WaitEvent} {live i : ℕ} {slot : WaitSlot}
  {r : WaitRecord} {key : WaitKey} {spec : WaitSpec} {reason : WakeReason}

/-- The wait of the key is gone. -/
def Gone (slots : KeySlab WaitRecord Unit) (key : WaitKey) : Prop :=
  slots.Spent key.slot key.generation

/-- The slots agree with the history, and `live` waits are published. -/
structure Accounted (slots : KeySlab WaitRecord Unit) (history : List WaitEvent) (live : ℕ) :
    Prop where
  keyed : ∀ i (slot : WaitSlot) (r : WaitRecord), slots[i]? = some slot → slot.record = some r →
    r.key = { slot := i, generation := slot.generation }
  logged : ∀ i r, slots.record i = some r → .published r.key r.spec ∈ history
  status : ∀ key ∈ publishedKeys history,
    (∃ r, slots.record key.slot = some r ∧ r.key = key) ∨ Gone slots key
  gone : ∀ key ∈ publishedKeys history, Gone slots key ↔ key ∈ resolvedKeys history
  issued : ∀ key spec reason, .resolved key spec reason ∈ history → .published key spec ∈ history
  published : (publishedKeys history).Nodup
  resolved : (resolvedKeys history).Nodup
  live : live = slots.sum fun _ => 1
  apart : ∀ i j r r', i ≠ j → slots.record i = some r → slots.record j = some r' →
    r.spec.operation ≠ r'.spec.operation ∧ r.spec.owner.conflicts r'.spec.owner = false

namespace Accounted

section

variable (h : Accounted slots history live)
include h

/-- A published wait in another slot than the one that changes stays as it is. -/
theorem unaffected {slots' : KeySlab WaitRecord Unit} (key : WaitKey)
    (hsame : ∀ j, j ≠ i → slots'[j]? = slots[j]?) (hgone : ∀ k, Gone slots k → Gone slots' k)
    (hkey : key ∈ publishedKeys history) (hother : ∀ r, slots.record i = some r → r.key ≠ key) :
    ((∃ r, slots'.record key.slot = some r ∧ r.key = key) ∨ Gone slots' key) ∧
      (Gone slots' key ↔ key ∈ resolvedKeys history) := by
  rw [← h.gone key hkey]
  rcases h.status key hkey with ⟨r, hr, hrk⟩ | hold
  · have hne : key.slot ≠ i := by
      intro heq
      rw [heq] at hr
      exact hother r hr hrk
    obtain ⟨slot, hslot, hrecord⟩ := record_eq_some hr
    have hslot' := (hsame _ hne).trans hslot
    have hgeneration : key.generation = slot.generation := by
      rw [← hrk, h.keyed _ slot r hslot hrecord]
    refine ⟨.inl ⟨r, (record_of_slot hslot').trans hrecord, hrk⟩, ?_⟩
    rw [Gone, Gone, hgeneration]
    exact iff_of_false (not_spent_of_record hslot' hrecord) (not_spent_of_record hslot hrecord)
  · exact ⟨.inr (hgone key hold), iff_of_true (hgone key hold) hold⟩

theorem published_of_resolved (hkey : key ∈ resolvedKeys history) :
    key ∈ publishedKeys history := by
  obtain ⟨spec, reason, hmem⟩ := mem_resolvedKeys.mp hkey
  exact mem_publishedKeys.mpr ⟨spec, h.issued key spec reason hmem⟩

/-- The wait of a resolved key is in no slot. -/
theorem key_ne_of_resolved (hkey : key ∈ resolvedKeys history) (hr : slots.record i = some r) :
    r.key ≠ key := by
  rintro rfl
  obtain ⟨slot, hslot, hrecord⟩ := record_eq_some hr
  have hgone := (h.gone r.key (h.published_of_resolved hkey)).mpr hkey
  rw [h.keyed i slot r hslot hrecord] at hgone
  exact not_spent_of_record hslot hrecord hgone

/-- The keys in the slots are the published keys that were not resolved. -/
theorem exists_record_iff :
    (∃ i r, slots.record i = some r ∧ r.key = key) ↔
      key ∈ publishedKeys history ∧ key ∉ resolvedKeys history := by
  constructor
  · rintro ⟨i, r, hr, rfl⟩
    exact ⟨mem_publishedKeys.mpr ⟨r.spec, h.logged i r hr⟩,
      fun hkey => h.key_ne_of_resolved hkey hr rfl⟩
  · rintro ⟨hpublished, hunresolved⟩
    rcases h.status key hpublished with ⟨r, hr, hkey⟩ | hgone
    · exact ⟨key.slot, r, hr, hkey⟩
    · exact absurd ((h.gone key hpublished).mp hgone) hunresolved

end

/-! ## Transitions -/

theorem empty : Accounted [] [] 0 := by
  have hnone : ∀ i r, ¬ KeySlab.record ([] : KeySlab WaitRecord Unit) i = some r := by
    intro i r hr
    cases hr
  exact ⟨fun i _ _ hslot => (by cases hslot), fun i r hr => absurd hr (hnone i r),
    fun _ hkey => (by cases hkey), fun _ hkey => (by cases hkey), fun _ _ _ hmem => (by cases hmem),
    nodup_nil, nodup_nil, rfl, fun i _ r _ _ hr => absurd hr (hnone i r)⟩

variable (h : Accounted slots history live)
include h

/-- A slot is added. -/
theorem append (hempty : slot.record = none) : Accounted (slots ++ [slot]) history live := by
  have hrecord : ∀ j, KeySlab.record (slots ++ [slot]) j = slots.record j := record_append hempty
  have hsame : ∀ j, j ≠ slots.length → (slots ++ [slot])[j]? = slots[j]? := by
    intro j hj
    rw [slot_append, if_neg hj]
  have hold : ∀ k ∈ publishedKeys history, _ := fun k hk =>
    h.unaffected k hsame (fun k hk => Spent.append hk slot) hk fun r hr => by
      rw [record, List.getElem?_eq_none (le_rfl)] at hr
      cases hr
  refine ⟨fun j s r hs hr => ?_, fun j r hr => ?_, fun k hk => (hold k hk).1,
    fun k hk => (hold k hk).2, h.issued, h.published, h.resolved, ?_,
    fun j j' r r' hne hr hr' => ?_⟩
  · rw [slot_append] at hs
    split at hs
    · cases hs
      cases hempty.symm.trans hr
    · exact h.keyed j s r hs hr
  · rw [hrecord] at hr
    exact h.logged j r hr
  · rw [sum_append, hempty]
    exact h.live
  · rw [hrecord] at hr hr'
    exact h.apart j j' r r' hne hr hr'

variable (hslot : slots[i]? = some slot)
include hslot

/-- The key of a free slot was not published before. -/
theorem fresh (hempty : slot.record = none) (hretired : slot.retired = false) :
    (⟨i, slot.generation⟩ : WaitKey) ∉ publishedKeys history := by
  intro hmem
  rcases h.status _ hmem with ⟨r, hr, -⟩ | hgone
  · cases ((record_of_slot hslot).trans hempty).symm.trans hr
  · exact not_spent_of_free hslot hretired hgone

/-- A wait is published in a free slot. -/
theorem publish (hempty : slot.record = none) (hretired : slot.retired = false)
    (hkey : key = { slot := i, generation := slot.generation })
    (hoperation : ∀ j r, slots.record j = some r → r.spec.operation ≠ spec.operation)
    (howner : ∀ j r, slots.record j = some r → r.spec.owner.conflicts spec.owner = false) :
    Accounted (slots.modify i (store { key, spec }))
      (history ++ [.published key spec]) (live + 1) := by
  have hplace : key.slot = i := by rw [hkey]
  have hgeneration : key.generation = slot.generation := by rw [hkey]
  have hnew : key ∉ publishedKeys history := by
    rw [hkey]
    exact h.fresh hslot hempty hretired
  have hrecord := record_modify (store { key, spec }) hslot
  have hkeep := slot_modify (store { key, spec }) hslot
  have hlater : Later slot (slot.store { key, spec }) := by
    refine .inr ⟨rfl, fun _ h => ?_⟩
    cases hretired.symm.trans h
  -- the slot was empty, so no earlier key lives there
  have hold : ∀ k ∈ publishedKeys history, _ := fun k hk =>
    h.unaffected k (i := i) (fun j hj => (hkeep j).trans (if_neg hj))
      (fun k hk => Spent.modify hk hslot hlater) hk fun r hr => by
        cases ((record_of_slot hslot).trans hempty).symm.trans hr
  have hcases : ∀ j r, KeySlab.record (slots.modify i (store { key, spec })) j = some r →
      j = i ∧ r = { key, spec } ∨ slots.record j = some r := by
    intro j r hr
    rw [hrecord] at hr
    split at hr
    next hj => exact .inl ⟨hj, (Option.some.inj hr).symm⟩
    · exact .inr hr
  have hpublished : publishedKeys (history ++ [.published key spec])
      = publishedKeys history ++ [key] := publishedKeys_append _ _
  have hresolved : resolvedKeys (history ++ [.published key spec]) = resolvedKeys history :=
    (resolvedKeys_append _ _).trans (List.append_nil _)
  refine ⟨fun j s r hs hr => ?_, fun j r hr => ?_, fun k hk => ?_, fun k hk => ?_,
    fun k spec' reason hmem => ?_, ?_, ?_, ?_, fun j j' r r' hne hr hr' => ?_⟩
  · rw [hkeep] at hs
    split at hs
    next hj =>
      cases hs
      cases hr
      rw [hj]
      exact hkey
    · exact h.keyed j s r hs hr
  · rw [mem_append]
    rcases hcases j r hr with ⟨-, rfl⟩ | hold
    · exact .inr (List.mem_singleton_self _)
    · exact .inl (h.logged j r hold)
  · rw [hpublished, mem_append, mem_singleton] at hk
    rcases hk with hk | rfl
    · exact (hold k hk).1
    · exact .inl ⟨{ key := k, spec }, (hrecord _).trans (if_pos hplace), rfl⟩
  · rw [hresolved]
    rw [hpublished, mem_append, mem_singleton] at hk
    rcases hk with hk | rfl
    · exact (hold k hk).2
    · refine iff_of_false ?_ fun hres => hnew (h.published_of_resolved hres)
      have hlive := not_spent_of_record ((hkeep _).trans (if_pos hplace)) rfl
      rw [Gone, hgeneration]
      exact hlive
  · rcases mem_append.mp hmem with hmem | hmem
    · exact List.mem_append_left _ (h.issued k spec' reason hmem)
    · cases mem_singleton.mp hmem
  · rw [hpublished, List.nodup_append]
    refine ⟨h.published, List.nodup_cons.mpr ⟨List.not_mem_nil, nodup_nil⟩, fun k hk k' hk' heq => ?_⟩
    rw [heq, mem_singleton.mp hk'] at hk
    exact hnew hk
  · rw [hresolved]
    exact h.resolved
  · have hsum := sum_modify (h := store { key, spec }) hslot fun _ => 1
    rw [hempty] at hsum
    rw [h.live]
    exact hsum.symm
  · rcases hcases j r hr with ⟨hj, rfl⟩ | hold <;> rcases hcases j' r' hr' with ⟨hj', rfl⟩ | hold'
    · exact absurd (hj.trans hj'.symm) hne
    · refine ⟨Ne.symm (hoperation j' r' hold'), ?_⟩
      rw [PendingCaller.conflicts_comm]
      exact howner j' r' hold'
    · exact ⟨hoperation j r hold, howner j r hold⟩
    · exact h.apart j j' r r' hne hold hold'

/-- A published wait is resolved. -/
theorem resolve (hr : slot.record = some r) (limit : ℕ) (reason : WakeReason) :
    Accounted (slots.modify i (vacate limit)) (history ++ [.resolved r.key r.spec reason])
      (live - 1) := by
  have hrecord := record_modify (vacate limit) hslot
  have hkeep := slot_modify (vacate limit) hslot
  have hi : slots.record i = some r := (record_of_slot hslot).trans hr
  have hkey := h.keyed i slot r hslot hr
  have hissued : r.key ∈ publishedKeys history := mem_publishedKeys.mpr ⟨r.spec, h.logged i r hi⟩
  have hunresolved : r.key ∉ resolvedKeys history := by
    rw [← h.gone _ hissued, hkey]
    exact not_spent_of_record hslot hr
  have hdead : Gone (slots.modify i (vacate limit)) r.key := by
    rw [hkey]
    exact spent_vacate limit hslot
  -- the slot had this key only, so that the others live or are gone as before
  have hold : ∀ k ∈ publishedKeys history, k ≠ r.key → _ := fun k hk hne =>
    h.unaffected k (i := i) (fun j hj => (hkeep j).trans (if_neg hj))
      (fun k hk => Spent.modify hk hslot (later_vacate limit slot)) hk fun r' hr' => by
        rw [← Option.mem_unique hi hr']
        exact Ne.symm hne
  have hcases : ∀ j r', KeySlab.record (slots.modify i (vacate limit)) j = some r' →
      j ≠ i ∧ slots.record j = some r' := by
    intro j r' hr'
    rw [hrecord] at hr'
    split at hr'
    · rw [record_vacate] at hr'
      cases hr'
    next hj => exact ⟨hj, hr'⟩
  have hpublished : publishedKeys (history ++ [.resolved r.key r.spec reason])
      = publishedKeys history := (publishedKeys_append _ _).trans (List.append_nil _)
  have hresolved : resolvedKeys (history ++ [.resolved r.key r.spec reason])
      = resolvedKeys history ++ [r.key] := resolvedKeys_append _ _
  refine ⟨fun j s r' hs hr' => ?_, fun j r' hr' => ?_, fun k hk => ?_, fun k hk => ?_,
    fun k spec reason' hmem => ?_, ?_, ?_, ?_, fun j j' r1 r2 hne hr1 hr2 => ?_⟩
  · obtain ⟨hj, -⟩ := hcases j r' ((record_of_slot hs).trans hr')
    rw [hkeep, if_neg hj] at hs
    exact h.keyed j s r' hs hr'
  · exact List.mem_append_left _ (h.logged j r' (hcases j r' hr').2)
  · rw [hpublished] at hk
    by_cases hk' : k = r.key
    · rw [hk']
      exact .inr hdead
    · exact (hold k hk hk').1
  · rw [hpublished] at hk
    rw [hresolved, mem_append, mem_singleton]
    by_cases hk' : k = r.key
    · rw [hk']
      exact iff_of_true hdead (.inr rfl)
    · rw [(hold k hk hk').2, or_iff_left hk']
  · refine List.mem_append_left _ ?_
    rcases mem_append.mp hmem with hmem | hmem
    · exact h.issued k spec reason' hmem
    · cases mem_singleton.mp hmem
      exact h.logged i r hi
  · rw [hpublished]
    exact h.published
  · rw [hresolved, List.nodup_append]
    refine ⟨h.resolved, List.nodup_cons.mpr ⟨List.not_mem_nil, nodup_nil⟩, fun k hk k' hk' heq => ?_⟩
    rw [heq, mem_singleton.mp hk'] at hk
    exact hunresolved hk
  · have hsum := sum_modify (h := vacate limit) hslot fun _ : WaitRecord => 1
    rw [hr, record_vacate] at hsum
    rw [h.live]
    exact Nat.sub_eq_of_eq_add hsum.symm
  · exact h.apart j j' r1 r2 hne (hcases j r1 hr1).2 (hcases j' r2 hr2).2

end Accounted

/-! ## Operations

`Grows` says which events an operation added to the history and that the completions it returns are
among them. -/

open Act (wp_bind wp_get wp_ite)

namespace WaitTable

variable {table s t : WaitTable} {i : ℕ} {r : WaitRecord} {key : WaitKey} {spec : WaitSpec}
  {reason : WakeReason} {P : WaitEvent → Prop} {batch : List WaitCompletion}
  {completion : WaitCompletion} {α : Type}

/-- The table agrees with its history, and has no more slots than it may have. -/
structure Consistent (table : WaitTable) : Prop
    extends Accounted table.slots table.history table.stats.live where
  size : table.slots.length ≤ table.capacity
  capacity : table.capacity ≤ maxWaitRegistrations

/-- A new table. -/
theorem consistent_new {capacity : ℕ} {granted : Bool}
    (hnew : WaitTable.new capacity granted = .ok table) : Consistent table := by
  simp only [WaitTable.new, ok_rules, not_or, Nat.not_lt] at hnew
  obtain ⟨_, ⟨-, hcapacity⟩, _, -, hnew⟩ := hnew
  rw [← Except.ok.inj hnew]
  exact ⟨Accounted.empty, Nat.zero_le _, hcapacity⟩

/-- Events that satisfy `P` were added, those of the completions among them. -/
structure Grows (P : WaitEvent → Prop) (completions : List WaitCompletion)
    (old new : WaitTable) : Prop where
  consistent : Consistent new
  events : ∃ added, new.history = old.history ++ added ∧ (∀ e ∈ added, P e) ∧
    ∀ c ∈ completions, ∃ spec, .resolved c.key spec c.reason ∈ added

/-- Events were added, those of the completions among them. -/
abbrev Extends := Grows fun _ => True

theorem Consistent.grows (h : Consistent s) : Grows P [] s s :=
  ⟨h, [], (List.append_nil _).symm, fun _ he => (by cases he), fun _ hc => (by cases hc)⟩

theorem Consistent.grows_of_history {added : List WaitEvent} (h : Consistent t)
    (hhistory : t.history = s.history ++ added) : Extends [] s t :=
  ⟨h, added, hhistory, fun _ _ => trivial, fun _ hc => (by cases hc)⟩

/-- Only counters have changed. -/
structure Recounts (old new : WaitTable) : Prop where
  slots : new.slots = old.slots
  capacity : new.capacity = old.capacity
  history : new.history = old.history
  live : new.stats.live = old.stats.live

theorem Recounts.consistent (h : Recounts s t) (hs : Consistent s) : Consistent t := by
  obtain ⟨hslots, hcapacity, hhistory, hlive⟩ := h
  refine ⟨?_, ?_, ?_⟩
  · rw [hslots, hhistory, hlive]
    exact hs.toAccounted
  · rw [hslots, hcapacity]
    exact hs.size
  · rw [hcapacity]
    exact hs.capacity

section

variable (h : Grows P batch s t)
include h

variable {t' : WaitTable}

theorem Grows.recounts (hc : Recounts t t') : Grows P batch s t' := by
  obtain ⟨added, hadded, hP, hcompletions⟩ := h.events
  exact ⟨hc.consistent h.consistent, added, hc.history.trans hadded, hP, hcompletions⟩

theorem Grows.weaken : Extends batch s t := by
  obtain ⟨added, hadded, -, hcompletions⟩ := h.events
  exact ⟨h.consistent, added, hadded, fun _ _ => trivial, hcompletions⟩

/-- The completions of an operation may be dropped. -/
theorem Grows.drop : Grows P [] s t := by
  obtain ⟨added, hadded, hP, -⟩ := h.events
  exact ⟨h.consistent, added, hadded, hP, fun _ hc => (by cases hc)⟩

/-- One more wait was resolved. -/
theorem Grows.resolved (hconsistent : Consistent t')
    (hhistory : t'.history = t.history ++ [.resolved completion.key spec completion.reason])
    (hP : P (.resolved completion.key spec completion.reason)) :
    Grows P (batch ++ [completion]) s t' := by
  obtain ⟨added, hadded, hold, hcompletions⟩ := h.events
  refine ⟨hconsistent, added ++ [.resolved completion.key spec completion.reason], ?_,
    fun e he => ?_, fun c hc => ?_⟩
  · rw [hhistory, hadded, List.append_assoc]
  · rcases List.mem_append.mp he with he | he
    · exact hold e he
    · rw [List.mem_singleton.mp he]
      exact hP
  · rcases List.mem_append.mp hc with hc | hc
    · obtain ⟨spec', hmem⟩ := hcompletions c hc
      exact ⟨spec', List.mem_append_left _ hmem⟩
    · rw [List.mem_singleton.mp hc]
      exact ⟨spec, List.mem_append_right _ (List.mem_singleton_self _)⟩

end

/-! ## Counters and slots -/

section

variable {Q : α → WaitTable → Prop} {R : WaitError → WaitTable → Prop} {p : WaitRecord → Bool}
  {grants : ℕ → Bool} {operation : PendingOperationId} {owner : TaskId}

@[simp] theorem live_setCounter (stats : WaitStats) (reason : WakeReason) (n : ℕ) :
    (stats.setCounter reason n).live = stats.live := by
  cases reason <;> rfl

variable {Q : Unit → WaitTable → Prop}

theorem wp_recordReason {immediate : Bool} (hR : ∀ e, R e s) (hQ : ∀ t, Recounts s t → Q () t) :
    (recordReason reason immediate).wp Q R s := by
  simp only [recordReason, wp_quiet, hR]
  intro _ _ _ _ n _
  exact hQ _ ⟨rfl, rfl, rfl, live_setCounter _ reason n⟩

theorem wp_countStale (hR : ∀ e, R e s) (hQ : ∀ t, Recounts s t → Q () t) :
    countStale.wp Q R s := by
  simp only [countStale, wp_quiet, hR]
  exact fun _ _ => hQ _ ⟨rfl, rfl, rfl, rfl⟩

/-- `resolve_index` resolves the wait of the slot, or changes nothing. -/
theorem wp_resolveIndex {Q : WaitCompletion → WaitTable → Prop} (hs : Consistent s)
    (hr : s.slots.record i = some r) (hR : ∀ e, R e s)
    (hQ : ∀ t, Consistent t → t.history = s.history ++ [.resolved r.key r.spec reason] →
      Q ⟨r.key, r.spec.owner, r.spec.operation, reason⟩ t) : (resolveIndex i reason).wp Q R s := by
  simp only [resolveIndex, wp_quiet, hR]
  intro record hrecord live hlive
  obtain rfl := Option.mem_unique hr hrecord
  obtain ⟨-, rfl⟩ := checkedSub_eq_some.mp hlive
  refine wp_recordReason hR fun t ht => ?_
  obtain ⟨slot, hslot, hstored⟩ := record_eq_some hr
  refine hQ _ ⟨?_, ?_, (ht.consistent hs).capacity⟩ (by rw [ht.history])
  · rw [ht.slots, ht.history]
    exact hs.resolve hslot hstored maxGeneration reason
  · rw [List.length_modify]
    exact (ht.consistent hs).size

theorem wp_validateKey {Q : ℕ → WaitTable → Prop} (hR : ∀ e t, Recounts s t → R e t)
    (hQ : ∀ r, s.slots.record key.slot = some r → r.key = key → Q key.slot s) :
    (validateKey key).wp Q R s := by
  unfold validateKey
  rw [wp_bind, wp_get, wp_ite]
  refine ⟨fun hvalid => ?_, fun _ => ?_⟩
  · obtain ⟨slot, hslot, hcheck⟩ := (Option.any_eq_true _ _).mp hvalid
    rw [Bool.and_eq_true] at hcheck
    obtain ⟨r, hr, hkey⟩ := (Option.any_eq_true _ _).mp hcheck.2
    exact hQ r ((record_of_slot hslot).trans hr) (of_decide_eq_true hkey)
  · rw [wp_bind]
    exact wp_countStale (fun e => hR e s ⟨rfl, rfl, rfl, rfl⟩) fun t ht => hR _ t ht

/-- `position` finds a published wait. -/
theorem position_eq_some (h : s.position p = some i) :
    ∃ r, s.slots.record i = some r ∧ p r = true := by
  rw [position, List.findIdx?_eq_some_iff_getElem] at h
  obtain ⟨hi, hany, -⟩ := h
  obtain ⟨r, hr, hp⟩ := (Option.any_eq_true _ _).mp hany
  exact ⟨r, (record_of_slot (List.getElem?_eq_getElem hi)).trans hr, hp⟩

theorem mem_records : r ∈ s.records ↔ ∃ i, s.slots.record i = some r := by
  unfold records record
  rw [List.mem_filterMap]
  constructor
  · rintro ⟨slot, hslot, hr⟩
    obtain ⟨i, hi⟩ := List.mem_iff_getElem?.mp hslot
    exact ⟨i, by rw [hi, Option.bind_some, hr]⟩
  · rintro ⟨i, hi⟩
    obtain ⟨slot, hslot, hr⟩ := Option.bind_eq_some_iff.mp hi
    exact ⟨slot, List.mem_of_getElem? hslot, hr⟩

/-- The slot a new wait goes to is free. -/
theorem wp_freeSlot {granted : Bool} {Q : ℕ → WaitTable → Prop} (hs : Consistent s)
    (hR : ∀ e, R e s)
    (hQ : ∀ i slot t, Consistent t → t.history = s.history →
      (∀ j, t.slots.record j = s.slots.record j) → t.slots[i]? = some slot →
      slot.record = none → slot.retired = false → Q i t) : (freeSlot granted).wp Q R s := by
  unfold freeSlot
  rw [wp_bind, wp_get]
  cases hvacancy : s.slots.vacancy with
  | some i =>
    obtain ⟨slot, hslot, hempty, hretired⟩ := vacancy_eq_some hvacancy
    exact hQ i slot s hs rfl (fun _ => rfl) hslot hempty hretired
  | none =>
    simp only [wp_quiet, hR]
    intro hlength _
    have hroom := Nat.lt_of_le_of_ne hs.size hlength
    exact hQ _ _ _ ⟨hs.append rfl, by rwa [List.length_append], hs.capacity⟩ rfl (record_append rfl)
      ((slot_append _ _).trans (if_pos rfl)) rfl rfl

/-! ## Operations -/

/-- `register` publishes a wait under a key that was never published, or nothing. -/
theorem wp_register (hs : Consistent s) (spec : WaitSpec) (observation : WaitObservation) (now : ℕ)
    (granted : Bool) :
    (register spec observation now granted).wp
      (fun reply t => Consistent t ∧ match reply with
        | .ready _ => t.history = s.history
        | .blocked key => key ∉ publishedKeys s.history ∧
            t.history = s.history ++ [.published key spec])
      (fun _ t => Consistent t ∧ t.history = s.history) s := by
  simp only [register, wp_quiet, hs]
  intro howner hoperation
  cases spec.observed observation now with
  | some reason =>
    simp only [consume, wp_quiet, hs]
    intro _
    exact wp_recordReason (fun _ => ⟨hs, rfl⟩) fun t ht => ⟨ht.consistent hs, ht.history⟩
  | none =>
    simp only [publish]
    rw [wp_bind]
    refine wp_freeSlot hs (fun _ => ⟨hs, rfl⟩) fun i slot t ht hhistory hsame hslot hempty hret => ?_
    simp only [wp_known, hslot]
    refine ⟨fun _ => ⟨ht, hhistory⟩, fun _ => ⟨fun live hlive => ?_, fun _ => ⟨ht, hhistory⟩⟩⟩
    obtain ⟨-, rfl⟩ := checkedAdd_eq_some.mp hlive
    refine ⟨⟨ht.publish hslot hempty hret rfl (fun j r hr heq => ?_) fun j r hr => ?_, ?_,
      ht.capacity⟩, ?_, by rw [hhistory]⟩
    · rw [hsame] at hr
      exact hoperation (List.any_eq_true.mpr ⟨r, mem_records.mpr ⟨j, hr⟩, decide_eq_true heq⟩)
    · rw [hsame] at hr
      rw [← Bool.not_eq_true]
      exact fun hconflict => howner (List.any_eq_true.mpr ⟨r, mem_records.mpr ⟨j, hr⟩, hconflict⟩)
    · rw [List.length_modify]
      exact ht.size
    · rw [← hhistory]
      exact ht.fresh hslot hempty hret

/-- `wake` resolves the wait of the key. -/
theorem wp_wake (hs : Consistent s) :
    (wake key reason).wp (fun c t => c.key = key ∧ Extends [c] s t) (fun _ => Extends [] s) s := by
  unfold wake
  rw [wp_bind]
  refine wp_validateKey (fun _ t ht => (Consistent.grows hs).recounts ht) fun r hr hkey => ?_
  simp only [wp_known, hr]
  refine ⟨fun _ => Consistent.grows hs, fun _ => ?_⟩
  refine wp_resolveIndex hs hr (fun _ => Consistent.grows hs) fun t ht hhistory => ⟨hkey, ?_⟩
  exact (Consistent.grows hs).resolved ht hhistory trivial

theorem wp_push (h : Grows P (batch ++ [completion]) s t) :
    (push grants batch completion).wp (fun batch t => Grows P batch s t)
      (fun _ t => Grows P [] s t) t := by
  unfold push
  simp only [wp_rules]
  exact ⟨fun _ => h.drop, fun _ => h⟩

/-- The loops resolve waits that satisfy the predicate. -/
theorem wp_resolveAll (grants : ℕ → Bool) (hs : Consistent s)
    (hP : ∀ r, p r = true → P (.resolved r.key r.spec reason)) :
    (resolveAll p reason grants).wp (fun batch t => Grows P batch s t)
      (fun _ t => Grows P [] s t) s := by
  unfold resolveAll
  refine Act.wp_forFold (fun batch t => Grows P batch s t) (Consistent.grows hs)
    fun batch i t _ ht => ?_
  unfold resolveIf
  rw [wp_bind, wp_get, wp_ite]
  refine ⟨fun hany => ?_, fun _ => ht⟩
  obtain ⟨r, hr, hp⟩ := (Option.any_eq_true _ _).mp hany
  rw [wp_bind]
  refine wp_resolveIndex ht.consistent hr (fun _ => ht.drop) fun t' ht' hhistory => ?_
  exact wp_push (ht.resolved ht' hhistory (hP r hp))

/-- A wait for the resource, identity and generation, was resolved. -/
def OfResource (resource : WaitResource) : WaitEvent → Prop
  | .published _ _ => False
  | .resolved _ spec _ => spec.resource = some resource

variable (hs : Consistent s)
include hs

theorem wp_wakeResource (resource : WaitResource) (reason : WakeReason) (grants : ℕ → Bool) :
    (wakeResource resource reason grants).wp (fun batch t => Grows (OfResource resource) batch s t)
      (fun _ t => Grows (OfResource resource) [] s t) s := by
  simp only [wakeResource, wp_quiet, Consistent.grows hs]
  intro _
  refine Act.wp_ok_mono (wp_resolveAll grants hs fun r hr => ?_) fun batch t ht => ?_
  · rw [Bool.and_eq_true, decide_eq_true_eq] at hr
    exact hr.1
  rw [wp_ite]
  refine ⟨fun _ => ?_, fun _ => ht⟩
  rw [wp_bind]
  exact wp_countStale (fun _ => ht.drop) fun t' ht' => ht.recounts ht'

/-- An operation that resolves one wait at most. -/
theorem wp_resolveOne (hr : s.slots.record i = some r) :
    (do return some (← resolveIndex i reason) : WaitAct (Option WaitCompletion)).wp
      (fun c => Extends c.toList s) (fun _ => Extends [] s) s := by
  rw [wp_bind]
  refine wp_resolveIndex hs hr (fun _ => Consistent.grows hs) fun t ht hhistory => ?_
  exact (Consistent.grows hs).resolved ht hhistory trivial

theorem wp_observeOperation {resource : Option WaitResource} {observation : WaitObservation}
    {now : ℕ} :
    (observeOperation operation resource observation now).wp
      (fun c => Extends c.toList s) (fun _ => Extends [] s) s := by
  have hrefl : Extends [] s s := Consistent.grows hs
  simp only [observeOperation, wp_quiet, hrefl]
  intro i hi r hr _
  cases r.spec.observed observation now with
  | none => exact hrefl
  | some reason =>
    simp only [wp_quiet, hrefl]
    intro _
    exact wp_bind.mp (wp_resolveOne hs hr)

theorem wp_cancelOperation : (cancelOperation operation reason).wp
      (fun c => Extends c.toList s) (fun _ => Extends [] s) s := by
  have hrefl : Extends [] s s := Consistent.grows hs
  simp only [cancelOperation, wp_quiet, hrefl]
  intro _
  cases hi : s.position (·.spec.operation = operation) with
  | none => exact hrefl
  | some i =>
    obtain ⟨r, hr, -⟩ := position_eq_some hi
    exact wp_resolveOne hs hr

theorem wp_discardOwner : (discardOwner owner reason).always (Extends [] s) s := by
  simp only [discardOwner, wp_quiet, Consistent.grows hs]
  intro _
  refine Act.wp_forFold (fun _ => Extends [] s) (Consistent.grows hs) fun removed i t _ ht => ?_
  unfold discardIf
  rw [wp_bind, wp_get, wp_ite]
  refine ⟨fun hany => ?_, fun _ => ht⟩
  obtain ⟨r, hr, -⟩ := (Option.any_eq_true _ _).mp hany
  rw [wp_bind]
  refine wp_resolveIndex ht.consistent hr (fun _ => ht) fun t' ht' hhistory => ?_
  have hgrown : Extends ([] ++ [⟨r.key, r.spec.owner, r.spec.operation, reason⟩]) s t' :=
    ht.resolved ht' hhistory trivial
  exact hgrown.drop

theorem wp_cancelOwner :
    (cancelOwner owner reason grants).wp (fun batch => Extends batch s)
      (fun _ => Extends [] s) s := by
  have hrefl : Extends [] s s := Consistent.grows hs
  simp only [cancelOwner, wp_quiet, hrefl]
  intro _
  cases hi : s.position (·.spec.owner.task = owner) with
  | none => exact hrefl
  | some i =>
    obtain ⟨r, hr, -⟩ := position_eq_some hi
    simp only [wp_rules]
    refine wp_resolveIndex hs hr (fun _ => hrefl) fun t ht hhistory => ?_
    exact wp_push (hrefl.resolved ht hhistory trivial)

end

end WaitTable

end Troe.Task
