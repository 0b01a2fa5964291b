import Troe.Task.SyncLifecycle

/-!
# Threads that exit and processes that stop

A thread that exits poisons the mutexes it owns. A process that stops takes its waits and its
objects with it.
-/

namespace Troe.Task

open Lib
open Act (wp_bind wp_ite wp_modify wp_mono wp_ok_mono)
open Option (bind_eq_some_iff filter_eq_some_iff filter_some map_some)

theorem ThreadTable.wp_stopProcess {self : ThreadTable} {owner : ProcessId}
    {Q : Unit → ThreadTable → Prop} {R : ThreadError → ThreadTable → Prop} (hR : ∀ e, R e self)
    (hQ : ∀ self', (∀ t, self'.find t = (self.find t).map fun r =>
        if r.snapshot.id.process = owner then stoppedRecord r else r) →
      self'.slots.generation = self.slots.generation → Q () self') :
    (stopProcess owner).wp Q R self := by
  unfold stopProcess updateProcess updateAll
  simp only [wp_rules]
  refine ⟨fun _ _ => hQ _ (find_updateAll (fun r => ?_) rfl) (generation_updateAll _),
    fun _ _ => hR _⟩
  split <;> rfl

namespace SyncState

variable {s : SyncState} {v : View} {i : ℕ} {id : ObjectId} {owner : ProcessId} {caller : ThreadId}
  {r : Record} {past : List SyncEvent} {opened : Option ObjectId} {Q : Unit → SyncState → Prop}
  {R : SyncError → SyncState → Prop}

/-! ## Stopping a process -/

/-- The objects without those of a process. -/
def objectsWithout (owner : ProcessId) (objects : GenSlab Object) : GenSlab Object :=
  objects.map fun slot =>
    if slot.value.any (·.id.process = owner) then { slot with value := none } else slot

theorem value_objectsWithout (owner : ProcessId) (objects : GenSlab Object) (k : ℕ) :
    (objectsWithout owner objects).value k = (objects.value k).filter (·.id.process ≠ owner) := by
  unfold objectsWithout GenSlab.value
  rw [List.getElem?_map]
  cases objects[k]? with
  | none => rfl
  | some slot =>
    obtain ⟨generation, value⟩ := slot
    cases value with
    | none => rfl
    | some o => by_cases ho : o.id.process = owner <;> simp [ho, filter_some]

theorem generation_objectsWithout (owner : ProcessId) (objects : GenSlab Object) (k : ℕ) :
    (objectsWithout owner objects).generation k = objects.generation k := by
  unfold objectsWithout GenSlab.generation
  rw [List.getElem?_map]
  cases objects[k]? with
  | none => rfl
  | some slot =>
    simp only [map_some]
    split <;> rfl

theorem find_objectsWithout {sync sync' : SyncTable}
    (h : sync'.objects = objectsWithout owner sync.objects) (id : ObjectId) :
    sync'.find id = if id.process = owner then none else sync.find id := by
  rw [SyncTable.find, SyncTable.find, h, value_objectsWithout]
  cases sync.objects.value id.slot with
  | none => simp
  | some o =>
    by_cases hid : o.id = id
    · by_cases ho : id.process = owner <;> simp [hid, ho, filter_some]
    · by_cases ho : o.id.process = owner <;> simp [hid, ho, filter_some]

/-- The waits without those that satisfy a predicate. -/
theorem waiter_filtered (p : Waiter → Bool) (waits : List (Option Waiter)) (i : ℕ) :
    slotAt (waits.map fun w => if w.any p then none else w) i
      = (slotAt waits i).filter fun w => !p w := by
  rw [slotAt_map _ _ rfl]
  cases slotAt waits i with
  | none => rfl
  | some w => cases hp : p w <;> simp [hp, filter_some]

theorem Represents.wait_filtered (h : Represents s v) (p : ThreadId → Prop) [DecidablePred p] (j : ℕ) :
    (v.wait j).filter (fun w => ¬ p w.token.thread) = (slotAt (s.sync.waits.map fun w =>
      if w.any (fun w => p w.token.thread) then none else w) j).map Waiter.info := by
  rw [waiter_filtered, h.wait]
  show ((slotAt s.sync.waits j).map _).filter _ = _
  cases slotAt s.sync.waits j with
  | none => rfl
  | some w => by_cases hw : p w.token.thread <;> simp [hw, Waiter.info, filter_some]

/-- The waits without those of some threads, when on each queue all waits are theirs or none is. -/
theorem Represents.queue_filtered (h : Represents s v) (hinv : v.Inv opened) {p : ThreadId → Prop}
    [DecidablePred p] {g : ObjectId → Prop} [DecidablePred g]
    (hgone : ∀ id j w, v.wait j = some w → w.place = some id → (p w.token.thread ↔ g id)) :
    let waits := s.sync.waits.map fun w => if w.any (fun w => p w.token.thread) then none else w
    (∀ id, ¬ g id → ∀ j ∈ v.queue id, slotAt waits j = slotAt s.sync.waits j) ∧
      ∀ id j, j ∈ (if g id then [] else v.queue id) ↔
        (slotAt waits j).bind Waiter.queuedOn = some id := by
  intro waits
  have hqueued : ∀ id j, j ∈ v.queue id ↔
      ∃ w, slotAt s.sync.waits j = some w ∧ w.queuedOn = some id :=
    fun id j => (h.member id j).trans bind_eq_some_iff
  have hthread : ∀ id j w, slotAt s.sync.waits j = some w → j ∈ v.queue id →
      (p w.token.thread ↔ g id) := by
    intro id j w hw hj
    obtain ⟨_, hinfo, hplace⟩ := (hinv.member id j).mp hj
    obtain ⟨w', hw', rfl⟩ := h.waiter_eq hinfo
    obtain rfl := Option.some.inj (hw.symm.trans hw')
    exact hgone id j _ hinfo hplace
  have hwaits : ∀ j, slotAt waits j = (slotAt s.sync.waits j).filter fun w =>
      !decide (p w.token.thread) := waiter_filtered _ _
  refine ⟨fun id hid j hj => ?_, fun id j => ?_⟩
  · obtain ⟨w, hw, -⟩ := (hqueued id j).mp hj
    rw [hwaits, hw]
    simp [hthread id j w hw hj, hid, filter_some]
  · simp only [hwaits, bind_eq_some_iff, filter_eq_some_iff]
    constructor
    · intro hj
      split at hj
      · cases hj
      next hid =>
        obtain ⟨w, hw, hq⟩ := (hqueued id j).mp hj
        exact ⟨w, ⟨hw, by simp [hthread id j w hw hj, hid]⟩, hq⟩
    · rintro ⟨w, ⟨hw, hp⟩, hq⟩
      have hj := (hqueued id j).mpr ⟨w, hw, hq⟩
      have hid : ¬ g id := by
        rw [← hthread id j w hw hj]
        simpa using hp
      rwa [if_neg hid]

theorem Represents.stop (h : Represents s v) (hinv : v.Inv opened)
    {threads : ThreadTable} {processes : List (Option SyncProcess)}
    (hfind : ∀ t, threads.find t = (s.threads.find t).map fun r =>
      if t.process = owner then drainedRecord (ThreadTable.stoppedRecord r) else r)
    (hgeneration : threads.slots.generation = s.threads.slots.generation) :
    Represents
      { threads
        sync :=
          { s.sync with
            processes
            waits := s.sync.waits.map fun w =>
              if w.any (·.token.thread.process = owner) then none else w
            objects := objectsWithout owner s.sync.objects }
        history := s.history ++ (departed owner s.sync.objects).map .retired }
      (v.stop owner (departed owner s.sync.objects)) := by
  -- threads queue on objects of their own process, so the other queues stay whole
  obtain ⟨hkeep, hmember⟩ := h.queue_filtered hinv (p := (·.process = owner))
    (g := (·.process = owner)) fun id j w hw hplace => by
      rw [(hinv.sound j w hw).process_of_place hplace]
  have howner : ∀ k o t, s.sync.objects.value k = some o → o.kind.owner = some t →
      t.process = o.id.process := by
    intro k o t hvalue hown
    exact (hinv.holder o.id o.kind t (h.kind_eq (h.find_of_slot hvalue)) hown).1
  have hobjects : ∀ id, SyncTable.find
      { s.sync with
        processes
        waits := s.sync.waits.map fun w =>
          if w.any (·.token.thread.process = owner) then none else w
        objects := objectsWithout owner s.sync.objects } id
      = if id.process = owner then none else s.sync.find id := find_objectsWithout rfl
  exact
    { wait := h.wait_filtered (·.process = owner)
      kind := fun id => by
        show (if id.process = owner then none else v.kind id) = _
        rw [hobjects, h.kind]
        by_cases hid : id.process = owner <;> simp [hid]
      thread := fun t => by
        show (v.thread t).map _ = _
        rw [hfind, h.thread]
      owned := fun t => by
        show (if t.process = owner then 0 else v.owned t) =
          (objectsWithout owner s.sync.objects).count _
        by_cases ht : t.process = owner
        · rw [if_pos ht]
          by_contra hne
          obtain ⟨k, o, hvalue, hown⟩ := GenSlab.count_pos (Nat.pos_of_ne_zero (Ne.symm hne))
          rw [value_objectsWithout, filter_eq_some_iff, decide_eq_true_eq] at hvalue
          exact hvalue.2 ((howner k o t hvalue.1 (of_decide_eq_true hown)).symm.trans ht)
        · rw [if_neg ht, h.owned]
          have hlength : (objectsWithout owner s.sync.objects).length = s.sync.objects.length :=
            List.length_map _
          refine (GenSlab.count_congr hlength fun k => ?_).symm
          rw [value_objectsWithout]
          cases hvalue : s.sync.objects.value k with
          | none => rfl
          | some o =>
            by_cases ho : o.id.process = owner
            · have hno : o.kind.owner ≠ some t := fun hown =>
                ht ((howner k o t hvalue hown).trans ho)
              simp [ho, hno, filter_some]
            · simp [ho, filter_some]
      history := congrArg (· ++ _) h.history
      waitSlots := by
        show v.waitSlots = (s.sync.waits.map _).length
        rw [List.length_map, h.waitSlots]
      objectSlots := by
        show v.objectSlots = (s.sync.objects.map _).length
        rw [List.length_map, h.objectSlots]
      objectGeneration := fun k => by
        show v.objectGeneration k = (objectsWithout owner s.sync.objects).generation k
        rw [generation_objectsWithout, h.objectGeneration]
      threadGeneration := fun k => by
        show v.threadGeneration k = threads.slots.generation k
        rw [hgeneration, h.threadGeneration]
      slot := fun k o hvalue => by
        rw [value_objectsWithout, filter_eq_some_iff] at hvalue
        exact h.slot k o hvalue.1
      linked := fun id o ho => by
        rw [hobjects] at ho
        by_cases hid : id.process = owner
        · rw [if_pos hid] at ho
          cases ho
        · rw [if_neg hid] at ho
          show Linked _ _ _ _ (if id.process = owner then [] else v.queue id)
          rw [if_neg hid]
          refine (h.linked id o ho).congr fun j hj => ?_
          exact ⟨congrArg (·.bind Waiter.previous) (hkeep id hid j hj),
            congrArg (·.bind Waiter.next) (hkeep id hid j hj)⟩
      dead := fun id hnone => by
        show (if id.process = owner then [] else v.queue id) = []
        rw [hobjects] at hnone
        by_cases hid : id.process = owner
        · rw [if_pos hid]
        · rw [if_neg hid] at hnone ⊢
          exact h.dead id hnone
      member := hmember }

/-- What departs with a process are its live objects. -/
theorem Represents.mem_departed (h : Represents s v) :
    id ∈ departed owner s.sync.objects ↔ id.process = owner ∧ ∃ o, s.sync.find id = some o := by
  unfold departed
  simp only [List.mem_map, List.mem_filter, List.mem_filterMap, decide_eq_true_eq]
  constructor
  · rintro ⟨o, ⟨⟨slot, hslot, hvalue⟩, hprocess⟩, rfl⟩
    obtain ⟨k, hk, hget⟩ := List.getElem_of_mem hslot
    have hat : s.sync.objects.value k = some o := by
      rw [GenSlab.value, List.getElem?_eq_getElem hk, hget]
      exact hvalue
    exact ⟨hprocess, o, h.find_of_slot hat⟩
  · rintro ⟨hprocess, o, ho⟩
    obtain ⟨hvalue, hid⟩ := find_eq_some ho
    obtain ⟨slot, hslot, hsome⟩ := bind_eq_some_iff.mp hvalue
    refine ⟨o, ⟨⟨slot, List.mem_of_getElem? hslot, hsome⟩, ?_⟩, hid⟩
    rw [hid]
    exact hprocess

theorem wp_requirePaired (hR : ∀ e, R e s) (hQ : Q () s) : (requirePaired owner).wp Q R s := by
  unfold requirePaired ofThread
  simp only [wp_rules, wp_ite]
  exact ⟨fun _ _ => ⟨fun _ => ⟨fun _ _ => hQ, fun _ _ => hR _⟩, fun _ => hQ⟩, fun _ _ => hR _⟩

/-- `stop_process` retires the objects of the process. -/
theorem wp_stopProcess {owner : ProcessId} (hs : Consistent past s) :
    (stopProcess owner).wp (fun _ s' => Consistent past s' ∧ ∀ id o, s.sync.find id = some o →
      id.process = owner → .retired id ∈ s'.history) (fun _ => Consistent past) s := by
  have hgood := hs
  obtain ⟨v, h, hc⟩ := hs
  unfold stopProcess
  rw [wp_bind]
  refine wp_requirePaired (fun _ => hgood) ?_
  rw [wp_bind, wp_onThreads]
  refine ThreadTable.wp_stopProcess (fun _ => hgood) fun threads hfind hgeneration => ?_
  have hstop := hc.stop owner (departed owner s.sync.objects) fun id hid => by
    obtain ⟨hprocess, o, ho⟩ := h.mem_departed.mp hid
    exact ⟨hprocess, o.kind, h.kind_eq ho⟩
  have hpast : past <+: (v.stop owner (departed owner s.sync.objects)).history :=
    hstop.recorded.past
  -- from here on the state is consistent again
  refine wp_mono (Act.Keeps.bind (onThreads_preserves (ThreadTable.stays_updateProcess _).calm)
    (fun _ => .bind (onThreads_preserves (ThreadTable.stays_updateProcess _).calm)
      fun _ => preserves_processes _) _ _ ⟨_, h.stop hc.inv (fun t => ?_)
        ((ThreadTable.generation_updateAll _).trans hgeneration), hstop.rebase⟩)
    (fun _ s' hs' => ⟨hs'.weaken hpast, fun id o ho hprocess => ?_⟩)
    fun _ s' hs' => hs'.weaken hpast
  · rw [ThreadTable.find_updateAll (fun r => by split <;> rfl) rfl, hfind]
    -- a record answers to its own identity
    cases hr : s.threads.find t with
    | none => rfl
    | some r =>
      obtain ⟨-, hid⟩ := ThreadTable.find_eq_some hr
      by_cases ht : t.process = owner
      · simp [ht, ThreadTable.stoppedRecord, hid]
      · simp [ht, hid]
  · have hmem : id ∈ departed owner s.sync.objects := h.mem_departed.mpr ⟨hprocess, o, ho⟩
    exact hs'.extends_past.subset (List.mem_append_right _ (List.mem_map_of_mem hmem))

/-! ## Leaving a thread -/

/-- The waits of a thread are dropped while none of them is on a queue. -/
theorem Represents.forget (h : Represents s v) (hinv : v.Inv opened)
    (hdone : ∀ i w, v.wait i = some w → w.token.thread = caller → ¬ w.phase.Pending) :
    Represents
      { s with sync := { s.sync with
        waits := s.sync.waits.map fun w => if w.any (·.token.thread = caller) then none else w } }
      { v with wait := fun i => (v.wait i).filter (·.token.thread ≠ caller) } := by
  obtain ⟨hkeep, hmember⟩ := h.queue_filtered hinv (p := (· = caller)) (g := fun _ => False)
    fun id j w hw hplace => iff_false_intro fun heq =>
      hdone j w hw heq (WaitInfo.pending_of_place hplace)
  exact
    { h with
      wait := h.wait_filtered (· = caller)
      waitSlots := by
        rw [List.length_map, h.waitSlots]
      linked := fun id o ho => by
        refine (h.linked id o ho).congr fun j hj => ?_
        exact ⟨congrArg (·.bind Waiter.previous) (hkeep id not_false j hj),
          congrArg (·.bind Waiter.next) (hkeep id not_false j hj)⟩
      member := hmember }

/-- What the last loop of `begin_exit` keeps: the mutexes the thread owned are retired, or their
slots are still ahead. -/
structure Leaving (past : List SyncEvent) (caller : ThreadId) (v0 : View) (visited : List ℕ)
    (s : SyncState) (v : View) : Prop where
  represents : Represents s v
  consistent : v.Consistent past none fun _ => 0
  quiet : v.Quiet caller
  mutexes : ∀ id poisoned policy, v0.kind id = some (.mutex (some caller) poisoned policy) →
    .retired id ∈ v.history ∨ id.slot ∉ visited ∧ v.kind id = v0.kind id

theorem Leaving.wp_abandon {v0 : View} {visited : List ℕ} {index : ℕ}
    (h : Leaving past caller v0 visited s v)
    (hQ : ∀ s' v', Leaving past caller v0 (visited ++ [index]) s' v' → Q () s') :
    (abandon caller index).wp Q R s := by
  -- a slot without a mutex of the thread
  have hskip : (∀ o, s.sync.objects.value index = some o → (Object.ownedBy o caller).isSome = false) →
      Q () s := by
    intro hfree
    refine hQ s v { h with mutexes := fun id poisoned policy hk => ?_ }
    refine (h.mutexes id poisoned policy hk).imp_right fun ⟨hahead, hsame⟩ => ⟨?_, hsame⟩
    rw [List.mem_append, List.mem_singleton, not_or]
    refine ⟨hahead, fun hslot => ?_⟩
    obtain ⟨o, ho, hkind⟩ := h.represents.find_eq (hsame.trans hk)
    have hnone := hfree o (hslot ▸ (find_eq_some ho).1)
    simp [Object.ownedBy, hkind] at hnone
  unfold abandon
  rw [wp_bind, Act.wp_get]
  cases hvalue : s.sync.objects.value index with
  | none => exact hskip (by simp [hvalue])
  | some o =>
    simp only [wp_ite, wp_rules]
    refine ⟨fun hown => ?_, fun hfree => hskip (by simpa [hvalue] using hfree)⟩
    have hk := h.represents.kind_eq (h.represents.find_of_slot hvalue)
    unfold Object.ownedBy at hown
    split at hown
    next holder poisoned policy hkind =>
      split at hown
      next hholder =>
        rw [hkind, hholder] at hk
        refine h.represents.wp_poison h.consistent hk h.quiet fun s' v' h' hc' hpoisoned =>
          hQ s' v' ⟨h', hc', hpoisoned.quiet, fun id poisoned' policy' hk' => ?_⟩
        rw [hpoisoned.history]
        obtain ⟨policy1, hkind'⟩ := hpoisoned.kind
        by_cases heq : id = o.id
        · exact .inl (List.mem_append_right _ (List.mem_singleton.mpr (congrArg _ heq)))
        · rcases h.mutexes id poisoned' policy' hk' with hretired | ⟨hahead, hsame⟩
          · exact .inl (List.mem_append_left _ hretired)
          · rw [hkind', Function.update_of_ne heq]
            refine .inr ⟨fun hmem => heq ?_, hsame⟩
            have hindex : id.slot = index := by simpa [hahead] using hmem
            -- two objects do not share a slot
            obtain ⟨o', ho', -⟩ := h.represents.find_eq (hsame.trans hk')
            obtain ⟨hvalue', hid'⟩ := find_eq_some ho'
            rw [hindex, hvalue, Option.some.injEq] at hvalue'
            rw [← hid', hvalue']
      · cases hown
    · cases hown

/-- `begin_exit` retires the mutexes its caller owns. -/
theorem wp_beginExit {owner : ProcessId} {caller : ThreadId} {now : ℕ} (hs : Consistent past s) :
    (beginExit owner caller now).wp (fun _ s' => Consistent past s' ∧ ∀ id o poisoned policy,
      s.sync.find id = some o → o.kind = .mutex (some caller) poisoned policy →
        .retired id ∈ s'.history) (fun _ => Consistent past) s := by
  have hgood := hs
  obtain ⟨v, h, hc⟩ := hs
  unfold beginExit
  rw [wp_bind]
  refine wp_active (fun _ => hgood) ?_
  simp only [wp_quiet, ofThread, mapError_eq_ok, ThreadTable.record_eq_ok, hgood, ne_eq, not_not]
  rintro r ⟨hprocess, hfind⟩ _ hstate
  have hr : v.thread caller = some r := by rw [h.thread, hfind]
  refine wp_clock (fun _ => hgood) ?_
  have h1 := h.atTime now
  rw [wp_ite]
  refine ⟨fun _ => ?_, fun _ => ?_⟩
  · rw [wp_bind]
    refine wp_ok_mono (wp_stopProcess (h1.consistent hc)) fun _ s' hs' => ⟨hs'.1, ?_⟩
    intro id o poisoned policy ho hkind
    refine hs'.2 id o ho ?_
    have hholder := hc.inv.holder id o.kind caller (h.kind_eq ho) (by rw [hkind]; rfl)
    rw [← hholder.1, hprocess]
  · -- a running thread has no pending wait
    have hdone : ∀ i w, v.wait i = some w → w.token.thread = caller → ¬ w.phase.Pending := by
      intro i w hw heq hpending
      obtain ⟨r', hr', -, -, hblocked⟩ := hc.inv.asleep i w hw
      rw [heq, hr, Option.some.injEq] at hr'
      have := hblocked hpending
      rw [← hr', hstate] at this
      cases this
    rw [wp_bind, wp_modify, wp_bind, ← hprocess]
    refine (h1.forget hc.inv hdone).wp_updateRecord hr rfl fun s2 h2 => ?_
    have hquiet : (v.forget caller r).Quiet caller := fun _ _ hw => by
      simpa using (filter_eq_some_iff.mp hw).2
    rw [wp_bind]
    refine Act.wp_forEach (fun visited t => ∃ v', Leaving past caller v visited t v')
      ⟨_, h2, hc.forget hr hdone, hquiet, fun id _ _ _ => .inr ⟨by simp, rfl⟩⟩
      (fun visited index t _ ht => ?_) fun t ht => ?_
    · obtain ⟨v', h'⟩ := ht
      exact h'.wp_abandon fun s' v' h' => ⟨v', h'⟩
    · obtain ⟨v', h'⟩ := ht
      have hs' := (h'.represents.consistent h'.consistent).rebase
      refine wp_mono ((onThreads_preserves ThreadTable.stays_beginExit.calm).bind
        (fun _ => .pure _) _ t hs')
        (fun _ s' hs'' => ⟨hs''.weaken (h'.represents.consistent h'.consistent).extends_past, ?_⟩)
        fun _ s' hs'' => hs''.weaken (h'.represents.consistent h'.consistent).extends_past
      intro id o poisoned policy ho hkind
      have hk : v.kind id = some (.mutex (some caller) poisoned policy) := by
        rw [h.kind_eq ho, hkind]
      rcases h'.mutexes id poisoned policy hk with hretired | ⟨hahead, -⟩
      · rw [h'.represents.history] at hretired
        exact hs''.extends_past.subset hretired
      · exact absurd (List.mem_range.mpr (GenSlab.lt_length_of_value (find_eq_some ho).1)) hahead

end SyncState

end Troe.Task
