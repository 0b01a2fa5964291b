import Troe.Task.WaitTheorems

/-!
# Cancelled owners and deadlines that have passed

`cancel_owner` resolves the first wait of a task, which is all of them for a task with one wait. A
wait that is observed as pending is refused when its deadline has passed and it did not ask to be
woken by it; `expire` leaves such a wait alone.
-/

namespace Troe.Task

open Lib KeySlab

/-- The completion of a wait. -/
def WaitRecord.completion (self : WaitRecord) (reason : WakeReason) : WaitCompletion :=
  { key := self.key, owner := self.spec.owner, operation := self.spec.operation, reason }

namespace WaitTable

variable {s t : WaitTable} {i j : ℕ} {r : WaitRecord} {task : TaskId}
  {reason : WakeReason} {grants : ℕ → Bool} {granted : Bool} {batch : List WaitCompletion}

/-- The tables that calls lead to. -/
inductive Reached : WaitTable → Prop
  | new (capacity : ℕ) (granted : Bool) {table : WaitTable} :
    WaitTable.new capacity granted = .ok table → Reached table
  | step {table : WaitTable} (c : WaitCall) : Reached table → Reached (c.perform table).2

theorem Reached.consistent (h : Reached s) : Consistent s := by
  induction h with
  | new _ _ hnew => exact consistent_new hnew
  | step c _ ih => exact (perform_grows ih c).consistent

/-- What `resolve_index` returns and what it does to the slots. -/
theorem wp_resolveIndex_slots : (resolveIndex i reason).wp (fun c t =>
      ∃ r, s.slots.record i = some r ∧ c = r.completion reason ∧
        ∀ j, t.slots.record j = if j = i then none else s.slots.record j)
    (fun _ _ => True) s := by
  unfold resolveIndex
  simp only [wp_rules]
  refine ⟨fun r hr => ⟨fun live _ => ?_, fun _ => trivial⟩, fun _ => trivial⟩
  obtain ⟨slot, hslot, -⟩ := record_eq_some hr
  refine wp_recordReason (fun _ => trivial) fun t ht => ⟨r, hr, rfl, fun j => ?_⟩
  rw [ht.slots, record_modify _ hslot, record_vacate]

theorem position_eq_none {p : WaitRecord → Bool} (h : s.position p = none)
    (hr : s.slots.record i = some r) : p r = false := by
  obtain ⟨slot, hslot, hrecord⟩ := record_eq_some hr
  have := List.findIdx?_eq_none_iff.mp h slot (List.mem_of_getElem? hslot)
  rwa [hrecord] at this

/-! ## Owners -/

/-- Every wait of the task, of its threads too, was completed once, and no other wait changed. -/
structure Completed (task : TaskId) (reason : WakeReason) (batch : List WaitCompletion)
    (old new : WaitTable) : Prop where
  gone : ∀ i r, new.slots.record i = some r → r.spec.owner.task ≠ task
  nodup : batch.Nodup
  batch : ∀ c, c ∈ batch ↔
    ∃ i r, old.slots.record i = some r ∧ r.spec.owner.task = task ∧ c = r.completion reason
  others : ∀ i r, r.spec.owner.task ≠ task →
    (new.slots.record i = some r ↔ old.slots.record i = some r)

/-- The task has one wait at most. -/
def SingleWait (table : WaitTable) (task : TaskId) : Prop :=
  ∀ i j r r', table.slots.record i = some r → table.slots.record j = some r' →
    r.spec.owner.task = task → r'.spec.owner.task = task → i = j

/-- What `cancel_owner` does: it resolves the first wait of the task. -/
theorem wp_cancelOwner_first : (cancelOwner task reason grants).wp (fun batch t =>
      (batch = [] ∧ t = s ∧ ∀ i r, s.slots.record i = some r → r.spec.owner.task ≠ task) ∨
      ∃ i r, s.slots.record i = some r ∧ r.spec.owner.task = task ∧
        batch = [r.completion reason] ∧
        ∀ j, t.slots.record j = if j = i then none else s.slots.record j)
    (fun _ _ => True) s := by
  unfold cancelOwner
  simp only [wp_rules]
  refine ⟨fun _ => trivial, fun _ => ?_⟩
  cases hi : s.position (·.spec.owner.task = task) with
  | none => exact .inl ⟨rfl, rfl, fun i r hr => of_decide_eq_false (position_eq_none hi hr)⟩
  | some i =>
    obtain ⟨r, hr, htask⟩ := position_eq_some hi
    simp only [push, wp_rules]
    refine Act.wp_ok_mono wp_resolveIndex_slots fun c t hc => ?_
    obtain ⟨r', hr', hc, hslots⟩ := hc
    obtain rfl := Option.mem_unique hr hr'
    rw [hc]
    exact ⟨fun _ => trivial, fun _ => .inr ⟨i, r, hr, of_decide_eq_true htask, rfl, hslots⟩⟩

/-- `cancel_owner` completes the waits of a task exactly if the task has one wait at most. -/
theorem cancelOwner_completes_iff (hok : cancelOwner task reason grants s = (.ok batch, t)) :
    Completed task reason batch s t ↔ s.SingleWait task := by
  rcases (Act.wp_iff.mp wp_cancelOwner_first).1 batch t hok with
    ⟨rfl, rfl, hnone⟩ | ⟨i, r, hr, htask, rfl, hslots⟩
  · refine iff_of_true ⟨hnone, List.nodup_nil, fun c => ?_, fun _ _ _ => Iff.rfl⟩
      fun i _ r _ hr _ htask => absurd htask (hnone i r hr)
    refine iff_of_false List.not_mem_nil ?_
    rintro ⟨i, r, hr, htask, -⟩
    exact hnone i r hr htask
  · have hother : ∀ j r', s.slots.record j = some r' → j ≠ i → t.slots.record j = some r' :=
      fun j r' hr' hne => by rw [hslots, if_neg hne, hr']
    constructor
    · -- a second wait would still be there
      intro h j k r1 r2 h1 h2 ht1 ht2
      have hall : ∀ j r', s.slots.record j = some r' → r'.spec.owner.task = task → j = i :=
        fun j r' hr' ht => by_contra fun hne => h.gone j r' (hother j r' hr' hne) ht
      rw [hall j r1 h1 ht1, hall k r2 h2 ht2]
    · intro hsingle
      refine ⟨fun j r' hr' ht => ?_, by simp, fun c => ?_, fun j r' ht => ?_⟩
      · rw [hslots] at hr'
        split at hr'
        · cases hr'
        next hne => exact hne (hsingle j i r' r hr' hr ht htask)
      · rw [List.mem_singleton]
        refine ⟨fun hc => ⟨i, r, hr, htask, hc⟩, ?_⟩
        rintro ⟨j, r', hr', ht, rfl⟩
        obtain rfl := hsingle j i r' r hr' hr ht htask
        rw [Option.mem_unique hr hr']
      · refine ⟨fun h => ?_, fun h => hother j r' h fun heq => ?_⟩
        · rw [hslots] at h
          split at h
          · cases h
          · exact h
        · rw [heq, hr] at h
          exact ht (Option.some.inj h ▸ htask)

/-- A wait of a thread. -/
def threadSpec (thread operation : ℕ) : WaitSpec where
  owner := { task := 7, thread := some { process := 1, slot := thread, generation := 1 } }
  operation := { slot := operation, generation := 1 }
  resource := some { identity := 5, generation := 1 }
  interests := .resourceReady
  deadline := some 10

def emptyTable : WaitTable := { slots := [], capacity := 2, stats := .default, history := [] }

/-- A table with the waits of one thread, or of two. -/
def oneThread : WaitTable :=
  ((WaitCall.register (threadSpec 0 0) .pending 0 true).perform emptyTable).2

def twoThreads : WaitTable :=
  ((WaitCall.register (threadSpec 1 1) .pending 0 true).perform oneThread).2

theorem reached_oneThread : Reached oneThread := .step _ (.new 2 true rfl)

theorem cancelOwner_completes_iff_oneThread :
    ∃ batch t, cancelOwner 7 .cancelled (fun _ => true) oneThread = (.ok batch, t) ∧
      (Completed 7 .cancelled batch oneThread t ↔ oneThread.SingleWait 7) := by
  have hok : cancelOwner 7 .cancelled (fun _ => true) oneThread = (.ok _, _) := rfl
  exact ⟨_, _, hok, cancelOwner_completes_iff hok⟩

/-- Two threads of a task wait. After `cancel_owner` the second one still does. -/
theorem cancelOwner_leaves_thread :
    Reached twoThreads ∧ ∃ batch t r,
      cancelOwner 7 .cancelled (fun _ => true) twoThreads = (.ok batch, t) ∧
        t.slots.record 1 = some r ∧ r.spec.owner.task = 7 :=
  ⟨.step _ reached_oneThread, _, _, _, rfl, rfl, rfl⟩

end WaitTable

/-! ## Deadlines -/

/-- The rule of `expire`: the wait asked for its deadline, and it has passed. -/
def WaitSpec.expires (self : WaitSpec) (now : ℕ) : Bool :=
  self.interests.contains .deadline && self.deadline.any (· ≤ now)

/-- The deadline has passed, and the wait did not ask for it. -/
def WaitSpec.overdue (self : WaitSpec) (now : ℕ) : Bool :=
  !self.interests.contains .deadline && self.deadline.any (· ≤ now)

theorem WaitSpec.observed_pending (spec : WaitSpec) (now : ℕ) :
    spec.observed .pending now = if spec.deadline.any (· ≤ now) then some .deadline else none := by
  cases h : spec.deadline with
  | none => simp [observed, h]
  | some deadline => by_cases hle : deadline ≤ now <;> simp [observed, h, hle, Option.filter]

theorem WaitSpec.accepts_deadline {spec : WaitSpec} {now : ℕ}
    (h : spec.deadline.any (· ≤ now) = true) :
    spec.accepts .deadline = spec.interests.contains .deadline := by
  obtain ⟨deadline, hdeadline, -⟩ := (Option.any_eq_true _ _).mp h
  simp [accepts, hdeadline]

/-- The counters an observation may raise are below their limits. -/
structure WaitStats.Countable (stats : WaitStats) : Prop where
  wakes : stats.wakes + 1 < 2 ^ 64
  immediateWakes : stats.immediateWakes + 1 < 2 ^ 64
  timeouts : stats.timeouts + 1 < 2 ^ 64

namespace WaitTable

variable {s : WaitTable} {i : ℕ} {r : WaitRecord} {spec : WaitSpec} {reason : WakeReason}
  {granted : Bool} {now : ℕ}

/-- The checks of `register` that have nothing to do with the observation. -/
structure Admits (table : WaitTable) (spec : WaitSpec) (granted : Bool) : Prop where
  owner : table.records.any (·.spec.owner.conflicts spec.owner) = false
  operation : table.records.any (·.spec.operation = spec.operation) = false
  room : table.slots.vacancy = none → table.slots.length ≠ table.capacity ∧ granted = true

theorem wp_recordReason_deadline {immediate : Bool} {Q : Unit → WaitTable → Prop}
    (h : s.stats.Countable) (hQ : ∀ t, Q () t) :
    (recordReason .deadline immediate).wp Q (fun _ _ => False) s := by
  obtain ⟨hwakes, himmediate, htimeouts⟩ := h
  unfold recordReason
  cases immediate <;>
    simp only [checkedAdd, WaitStats.counter, wp_rules, hwakes, himmediate, htimeouts] <;> simp [hQ]

/-- A table has no more waits than slots, and too few slots for a number of theirs to overflow. -/
theorem Consistent.small (hs : Consistent s) :
    s.stats.live ≤ s.slots.length ∧ s.slots.length ≤ 65536 := by
  refine ⟨?_, Nat.le_trans hs.size hs.capacity⟩
  rw [hs.live, sum_eq, List.map_const', List.sum_replicate_nat, Nat.mul_one]
  exact List.length_filterMap_le _ _

/-- A wait that is admitted is published. -/
theorem wp_publish (hs : Consistent s) (h : s.Admits spec granted) :
    (publish spec granted).wp (fun reply _ => ∃ key, reply = .blocked key)
      (fun _ _ => False) s := by
  obtain ⟨hlive, hnumbers⟩ := hs.small
  simp only [publish, freeSlot, wp_rules]
  cases hvacancy : s.slots.vacancy with
  | some i =>
    obtain ⟨slot, hslot, -⟩ := vacancy_eq_some hvacancy
    have hi := (List.getElem?_eq_some_iff.mp hslot).1
    simp [hslot, checkedAdd]
    omega
  | none =>
    obtain ⟨hlength, hgranted⟩ := h.room hvacancy
    simp [hlength, hgranted, checkedAdd]
    omega

/-- A pending wait is registered unless it is overdue, and is ready exactly if it expires. -/
theorem register_pending_iff (hs : Consistent s) (hcount : s.stats.Countable)
    (h : s.Admits spec granted) (now : ℕ) :
    (∃ reply t, register spec .pending now granted s = (.ok reply, t) ∧
        (reply = .ready .deadline ↔ spec.expires now = true)) ↔ spec.overdue now = false := by
  rw [← Act.wp_returns]
  simp only [register, wp_rules, h.owner, h.operation, WaitSpec.observed_pending, WaitSpec.expires,
    WaitSpec.overdue, Bool.false_eq_true, false_imp_iff, not_false_eq_true, true_imp_iff, true_and]
  cases hdue : spec.deadline.any (· ≤ now) with
  | false =>
    refine iff_of_true (Act.wp_mono (wp_publish hs h) ?_ fun _ _ h => h) (by simp)
    rintro _ _ ⟨key, rfl⟩
    simp
  | true =>
    simp only [if_true, consume, wp_rules, WaitSpec.accepts_deadline hdue]
    cases spec.interests.contains .deadline with
    | false => simp
    | true => simpa using wp_recordReason_deadline hcount fun _ => trivial

/-- A published wait is found by its operation. -/
theorem position_operation (hs : Consistent s) (hr : s.slots.record i = some r) :
    s.position (·.spec.operation = r.spec.operation) = some i := by
  cases hposition : s.position (·.spec.operation = r.spec.operation) with
  | none => simpa using position_eq_none hposition hr
  | some j =>
    obtain ⟨r', hr', heq⟩ := position_eq_some hposition
    by_contra hne
    exact (hs.apart j i r' r (fun h => hne (h ▸ rfl)) hr' hr).1 (of_decide_eq_true heq)

theorem live_pos (hs : Consistent s) (hr : s.slots.record i = some r) : 1 ≤ s.stats.live := by
  rw [live_eq hs, ← (keys_perm hs).length_eq, List.length_map]
  exact List.length_pos_of_mem (mem_records.mpr ⟨i, hr⟩)

/-- A published wait is observed as pending unless it is overdue, and completed exactly if it
expires. -/
theorem observe_pending_iff (hs : Consistent s) (hcount : s.stats.Countable)
    (hr : s.slots.record i = some r) (now : ℕ) :
    (∃ c t, observeOperation r.spec.operation r.spec.resource .pending now s = (.ok c, t) ∧
        (c = some (r.completion .deadline) ↔ r.spec.expires now = true)) ↔
      r.spec.overdue now = false := by
  have hlive := live_pos hs hr
  rw [← Act.wp_returns]
  simp only [observeOperation, wp_known, position_operation hs hr, hr, WaitSpec.observed_pending,
    WaitSpec.expires, WaitSpec.overdue, ne_eq, not_true_eq_false, not_false_eq_true, true_imp_iff,
    true_and]
  cases hdue : r.spec.deadline.any (· ≤ now) with
  | false => simp
  | true =>
    simp only [if_true, wp_rules, WaitSpec.accepts_deadline hdue]
    cases r.spec.interests.contains .deadline with
    | false => simp
    | true =>
      simp only [resolveIndex, wp_rules, hr, checkedSub, if_pos hlive]
      simpa [WaitRecord.completion] using wp_recordReason_deadline hcount fun _ => trivial

variable {batch : List WaitCompletion} {grants : ℕ → Bool} {t : WaitTable}

/-- The loop of `resolveAll` from slot `n` on. -/
theorem wp_resolveFrom {p : WaitRecord → Bool} {k n : ℕ} (hk : n + k = s.slots.length)
    (hrest : ∀ j, n ≤ j → t.slots.record j = s.slots.record j)
    (hbatch : batch = (((s.slots.take n).filterMap KeySlot.record).filter p).map
      (·.completion reason)) :
    (Act.forFold (List.range' n k) batch (resolveIf p reason grants)).wp
      (fun batch _ => batch = (s.records.filter p).map (·.completion reason))
      (fun _ _ => True) t := by
  induction k generalizing n t batch with
  | zero =>
    rw [hbatch, List.take_of_length_le (show s.slots.length ≤ n by omega)]
    rfl
  | succ k ih =>
    have hn : n < s.slots.length := by omega
    have htake : (s.slots.take (n + 1)).filterMap KeySlot.record =
        (s.slots.take n).filterMap KeySlot.record ++ (s.slots.record n).toList := by
      rw [List.take_succ_eq_append_getElem hn, List.filterMap_append, KeySlab.record,
        List.getElem?_eq_getElem hn]
      cases h : s.slots[n].record <;> simp [h]
    rw [List.range'_succ, Act.forFold, resolveIf]
    simp only [wp_rules]
    rw [Act.wp_ite, hrest n (Nat.le_refl n)]
    refine ⟨fun hany => ?_, fun hany => ih (by omega) (fun j hj => hrest j (by omega)) ?_⟩
    · obtain ⟨r, hr, hp⟩ := (Option.any_eq_true _ _).mp hany
      simp only [push, wp_rules]
      refine Act.wp_ok_mono wp_resolveIndex_slots fun c t' hc => ?_
      obtain ⟨r', hr', hc, hslots⟩ := hc
      rw [hrest n (Nat.le_refl n), hr, Option.some.injEq] at hr'
      refine ⟨fun _ => trivial, fun _ => ih (by omega) (fun j hj => ?_) ?_⟩
      · rw [hslots, if_neg (by omega), hrest j (by omega)]
      · rw [htake, hbatch, hc, hr, ← hr']
        simp [hp]
    · rw [htake, hbatch]
      cases hr : s.slots.record n with
      | none => simp
      | some r => simp_all

/-- What `expire` completes: the waits that expire. -/
theorem mem_expire (hs : Consistent s) (hok : expire now grants s = (.ok batch, t))
    (hr : r ∈ s.records) :
    r.completion .deadline ∈ batch ↔ r.spec.expires now = true := by
  have hwp : (expire now grants).wp (fun batch _ =>
      batch = (s.records.filter (·.spec.expires now)).map (·.completion .deadline))
      (fun _ _ => True) s := by
    unfold expire resolveAll
    rw [Act.wp_bind, Act.wp_get, List.range_eq_range']
    exact wp_resolveFrom (Nat.zero_add _) (fun _ _ => rfl) rfl
  rw [(Act.wp_iff.mp hwp).1 batch t hok, List.mem_map]
  refine ⟨?_, fun hexpires => ⟨r, List.mem_filter.mpr ⟨hr, hexpires⟩, rfl⟩⟩
  rintro ⟨r', hmem, heq⟩
  obtain ⟨hr', hexpires⟩ := List.mem_filter.mp hmem
  obtain ⟨i, hi⟩ := mem_records.mp hr
  obtain ⟨j, hj⟩ := mem_records.mp hr'
  obtain ⟨slot, hslot, hstored⟩ := record_eq_some hi
  obtain ⟨slot', hslot', hstored'⟩ := record_eq_some hj
  have hkey : r'.key = r.key := congrArg WaitCompletion.key heq
  rw [hs.keyed i slot r hslot hstored, hs.keyed j slot' r' hslot' hstored'] at hkey
  obtain rfl : j = i := congrArg WaitKey.slot hkey
  rwa [Option.mem_unique hi hj]

/-- Polling and expiry agree on the waits that are not overdue, and on no others: registering or
observing such a wait as pending succeeds, and reports the deadline exactly if `expire` would
complete it. -/
theorem pending_agrees_iff (hreached : Reached s) (hcount : s.stats.Countable) (now : ℕ)
    (grants : ℕ → Bool) :
    (∀ spec granted, s.Admits spec granted →
      ((∃ reply t, register spec .pending now granted s = (.ok reply, t) ∧
          (reply = .ready .deadline ↔ spec.expires now = true)) ↔ spec.overdue now = false)) ∧
    (∀ r ∈ s.records,
      ((∃ c t, observeOperation r.spec.operation r.spec.resource .pending now s = (.ok c, t) ∧
          (c = some (r.completion .deadline) ↔ r.spec.expires now = true)) ↔
        r.spec.overdue now = false)) ∧
    ∀ batch t, expire now grants s = (.ok batch, t) → ∀ r ∈ s.records,
      (r.completion .deadline ∈ batch ↔ r.spec.expires now = true) := by
  have hs := hreached.consistent
  refine ⟨fun spec granted h => register_pending_iff hs hcount h now, fun r hr => ?_,
    fun batch t hok r hr => mem_expire hs hok hr⟩
  obtain ⟨i, hi⟩ := mem_records.mp hr
  exact observe_pending_iff hs hcount hi now

theorem pending_agrees_iff_oneThread :
    ∃ reply t, register (threadSpec 1 1) .pending 9 true oneThread = (.ok reply, t) := by
  have hagrees := pending_agrees_iff reached_oneThread ⟨by decide, by decide, by decide⟩ 9
    fun _ => true
  obtain ⟨reply, t, hok, -⟩ := (hagrees.1 (threadSpec 1 1) true
    ⟨by decide, by decide, by decide⟩).mpr (by decide)
  exact ⟨reply, t, hok⟩

/-- A wait for a resource that also has a deadline is refused once the deadline has passed: when it
is registered, and when it is published and observed. `expire` completes nothing. -/
theorem pending_overdue_refused :
    WaitSpec.newFor (threadSpec 1 1).owner (threadSpec 1 1).operation (threadSpec 1 1).resource
        (threadSpec 1 1).interests (threadSpec 1 1).deadline = .ok (threadSpec 1 1) ∧
      (register (threadSpec 1 1) .pending 10 true oneThread).1 = .error .unexpectedWake ∧
      (observeOperation (threadSpec 0 0).operation (threadSpec 0 0).resource .pending 10
        oneThread).1 = .error .unexpectedWake ∧
      (expire 10 (fun _ => true) oneThread).1 = .ok [] :=
  ⟨rfl, rfl, rfl, rfl⟩

end WaitTable

end Troe.Task
