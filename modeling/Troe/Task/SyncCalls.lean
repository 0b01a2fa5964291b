import Troe.Task.SyncOperations

/-!
# Calls on synchronization objects

Every call on a mutex, a condition or a permit takes consistent states to consistent states, whether
it is accepted or rejected.
-/

namespace Troe.Task

open Lib
open Act (wp_bind wp_get wp_ite wp_ofExcept)
open Option (any any_some map_some)
open WaitInfo (pending_of_place place)

namespace SyncState

/-- A state with a consistent view, whose history extends `past`. -/
def Consistent (past : List SyncEvent) (s : SyncState) : Prop :=
  ∃ v, Represents s v ∧ v.Consistent past none fun _ => 0

/-- An operation takes consistent states to consistent states. -/
abbrev Preserves {α : Type} (x : SyncAct α) : Prop := x.Keeps Consistent

variable {s s' : SyncState} {v : View} {i : ℕ} {id : ObjectId} {w : WaitInfo} {r : Record}
  {owner : ProcessId} {caller : ThreadId} {now : ℕ} {past : List SyncEvent} {mutex : MutexId}
  {mode : WaitMode}

/-! ## Preambles -/

section

variable {Q : Unit → SyncState → Prop} {R : SyncError → SyncState → Prop}

theorem wp_active (hR : ∀ e, R e s) (hQ : Q () s) : (active owner).wp Q R s := by
  unfold active ofThread
  simp only [wp_rules]
  exact ⟨fun _ _ => ⟨fun _ _ => ⟨fun _ => hR _, fun _ => hQ⟩, fun _ _ => hR _⟩, fun _ _ => hR _⟩

/-- The caller of an operation runs and does not wait. -/
theorem wp_requireCaller (hR : ∀ e, R e s)
    (hQ : ∀ r, s.threads.find caller = some r → caller.process = owner → r.syncWait = false →
      r.snapshot.state = .running → Q () s) : (requireCaller owner caller).wp Q R s := by
  unfold requireCaller
  rw [wp_bind]
  refine wp_active hR ?_
  simp only [wp_rules, ofThread, mapError_eq_ok, ThreadTable.requireRunning_eq_ok]
  refine ⟨?_, fun _ _ => hR _⟩
  rintro - ⟨hprocess, r, hfind, hsync, -, hstate⟩
  exact hQ r hfind hprocess hsync hstate

/-- The clock moves forward. -/
def atTime (s : SyncState) (now : ℕ) : SyncState := { s with sync := { s.sync with lastNow := now } }

theorem wp_clock (hR : ∀ e, R e s) (hQ : Q () (s.atTime now)) : (clock now).wp Q R s := by
  unfold clock
  simp only [wp_rules]
  exact ⟨fun _ => hR _, fun _ => hQ⟩

end

theorem Represents.atTime (h : Represents s v) (now : ℕ) : Represents (s.atTime now) v := { h with }

theorem Represents.consistent (h : Represents s v) (hc : v.Consistent past none fun _ => 0) :
    Consistent past s := ⟨v, h, hc⟩

/-- What has happened stays in the history. -/
theorem Consistent.extends_past (hs : Consistent past s) : past <+: s.history := by
  obtain ⟨v, h, hc⟩ := hs
  rw [← h.history]
  exact hc.recorded.past

theorem Consistent.weaken {past' : List SyncEvent} (hs : Consistent past s) (hle : past' <+: past) :
    Consistent past' s := by
  obtain ⟨v, h, hc⟩ := hs
  exact ⟨v, h, hc.weaken hle⟩

/-- The history so far becomes the past. -/
theorem Consistent.rebase (hs : Consistent past s) : Consistent s.history s := by
  obtain ⟨v, h, hc⟩ := hs
  exact ⟨v, h, h.history ▸ hc.rebase⟩

variable {o : Object}

/-- An object is found by its own process. -/
theorem object_eq_ok :
    s.sync.object owner id = .ok o ↔ id.process = owner ∧ s.sync.find id = some o := by
  unfold SyncTable.object
  simp only [ok_rules, ne_eq, not_not]
  tauto

/-- The caller holds the mutex. -/
theorem requireOwner_eq_ok {u : Unit}
    (h : s.sync.requireOwner owner caller mutex = .ok u) : mutex.object.process = owner ∧
      ∃ o poisoned policy, s.sync.find mutex.object = some o ∧
        o.kind = .mutex (some caller) poisoned policy := by
  unfold SyncTable.requireOwner at h
  rw [bind_eq_ok] at h
  obtain ⟨o, ho, h⟩ := h
  obtain ⟨hprocess, hfind⟩ := object_eq_ok.mp ho
  refine ⟨hprocess, o, ?_⟩
  split at h
  next holder poisoned policy hkind =>
    rw [rejectIf_eq_ok, not_not] at h
    exact ⟨poisoned, policy, hfind, by rw [hkind, h]⟩
  · cases h

theorem Represents.kind_eq (h : Represents s v) (ho : s.sync.find id = some o) :
    v.kind id = some o.kind := by
  rw [h.kind, ho, map_some]

/-! ## Mutexes -/

/-- A call that made its caller wait says so in the history. -/
def Logged (caller : ThreadId) (source : ObjectId) (mutex : Option MutexId) (start : SyncStart)
    (s : SyncState) : Prop :=
  ∀ token, start = .waiting token → token.thread = caller ∧ .waits token source mutex ∈ s.history

/-- Waiting for an object, or not. -/
theorem Represents.wp_waitOrTry (h : Represents s v)
    (hc : v.Consistent past none fun _ => 0) {k : Kind} (hk : v.kind id = some k)
    (hprocess : id.process = caller.process) (hcondition : k ≠ .condition)
    (hidle : ∀ poisoned policy, k ≠ .mutex none poisoned policy)
    (hstock : ∀ count maximum, k = .permit count maximum → count = 0)
    (hfree : ∀ poisoned policy, k ≠ .mutex (some caller) poisoned policy) :
    (waitOrTry caller id none mode).wp
      (fun start s' => Consistent past s' ∧ Logged caller id none start s')
      (fun _ => Consistent past) s := by
  cases mode with
  | «try» => exact ⟨h.consistent hc, fun _ hstart => by cases hstart⟩
  | wait options =>
    rw [waitOrTry, wp_bind]
    refine h.wp_admitWait hc.toBalanced (fun sequence => ?_) (fun poisoned policy hk' => ?_)
      (fun count maximum hk' => ?_) (fun _ => h.consistent hc)
      fun token s' v' hthread h' hc' hadmitted => ⟨h'.consistent ⟨hc', hadmitted.owned hc.owned
        fun holder poisoned policy hk' heq => ?_⟩, fun token' hstart => ?_⟩
    · exact ⟨hprocess, fun _ => ⟨k, hk, hcondition⟩, fun _ hm => (by cases hm),
        fun _ hphase => by cases hphase⟩
    · exact hidle poisoned policy (Option.mem_unique hk hk')
    · exact hstock count maximum (Option.mem_unique hk hk')
    · rw [heq, hthread] at hk'
      exact hfree poisoned policy (Option.mem_unique hk hk')
    · cases hstart
      rw [← h'.history]
      exact ⟨hthread, hadmitted.logged⟩

/-- A free mutex goes to the caller, who otherwise waits. -/
theorem wp_lock (hs : Consistent past s) :
    (lock owner caller mutex mode now).wp
      (fun start s' => Consistent past s' ∧ Logged caller mutex.object none start s')
      (fun _ => Consistent past) s := by
  have hgood := hs
  obtain ⟨v, h, hc⟩ := hs
  unfold lock
  rw [wp_bind]
  refine wp_requireCaller (fun _ => hgood) fun r hfind hprocess hsync hstate => ?_
  simp only [wp_quiet, object_eq_ok, hgood]
  rintro o ⟨howner, ho⟩
  have hk := h.kind_eq ho
  have hr : v.thread caller = some r := by rw [h.thread, hfind]
  cases hkind : o.kind with
  | condition => exact hgood
  | permit count maximum => exact hgood
  | mutex holder poisoned policy =>
    rw [hkind] at hk
    simp only [wp_bind, Act.wp_reject]
    refine ⟨fun _ => hgood, fun hother => ?_⟩
    refine wp_clock (fun _ => hgood) ?_
    have h1 := h.atTime now
    have hdone : ∀ outcome, Consistent past (s.atTime now) ∧
        Logged caller mutex.object none (.complete outcome) (s.atTime now) :=
      fun _ => ⟨h1.consistent hc, fun _ hstart => by cases hstart⟩
    simp only [wp_ofExcept]
    refine ⟨fun outcome _ => ?_, fun _ _ => h1.consistent hc⟩
    cases outcome with
    | some outcome => exact hdone outcome
    | none =>
      simp only [wp_ite]
      refine ⟨fun _ => hdone .poisoned, fun halive => ⟨fun hnone => ?_, fun hsome => ?_⟩⟩
      · -- the mutex is free and goes to the caller
        rw [Option.isNone_iff_eq_none] at hnone
        rw [Bool.not_eq_true] at halive
        rw [hnone, halive] at hk
        rw [wp_bind]
        refine h1.wp_setOwner_some hk hr fun s2 h2 =>
          ⟨h2.consistent ?_, fun _ hstart => by cases hstart⟩
        exact hc.acquire hk hr ((hc.inv.retired caller r hr).released_eq_false (.inr hstate))
          (hprocess.trans howner.symm) (hc.inv.quiet hr hsync)
      · refine h1.wp_waitOrTry hc hk (howner.trans hprocess.symm) (by simp) ?_ (by simp) ?_
        · intro poisoned' policy' heq
          rw [Kind.mutex.injEq] at heq
          exact hsome (by rw [heq.1]; rfl)
        · intro poisoned' policy' heq
          rw [Kind.mutex.injEq] at heq
          exact hother heq.1

/-- The mutex is released and offered to the next thread. -/
theorem unlock_preserves : Preserves (unlock owner caller mutex now) := by
  rintro past s ⟨v, h, hc⟩
  have hgood : Consistent past s := ⟨v, h, hc⟩
  unfold unlock
  rw [wp_bind]
  refine wp_requireCaller (fun _ => hgood) fun r hfind _ hsync _ => ?_
  simp only [wp_rules]
  refine ⟨fun _ hown => ?_, fun _ _ => hgood⟩
  obtain ⟨-, o, poisoned, policy, ho, hkind⟩ := requireOwner_eq_ok hown
  refine wp_clock (fun _ => hgood) ?_
  have h1 := h.atTime now
  have hk : v.kind mutex.object = some (.mutex (some caller) poisoned policy) := by
    rw [h.kind_eq ho, hkind]
  have hquiet : v.Quiet caller := hc.inv.quiet ((h.thread caller).trans hfind) hsync
  obtain ⟨r, hr, hretained⟩ := h.holder_retains hc.inv hk rfl
  refine h1.wp_setOwner_none hk hr fun s2 h2 => ?_
  exact h2.wp_grantMutex (hc.release hk hr hretained hquiet) (Function.update_self ..)
    fun s' v' h' hc' _ => h'.consistent hc'

/-! ## Conditions -/

/-- A handle that was issued for a condition names a condition while it is alive. -/
theorem Represents.condition_kind (h : Represents s v) {debt : ObjectId → ℕ}
    (hledger : v.Ledger debt) (hissued : .created id .condition ∈ s.history)
    (ho : s.sync.find id = some o) : v.kind id = some .condition := by
  rw [← h.history] at hissued
  have hk := h.kind_eq ho
  rw [hk, (hledger.kinds id _ _ hissued hk).condition.mp rfl]

/-- The caller is queued before the mutex is released. -/
theorem wp_conditionWait {request : ConditionWait} (hs : Consistent past s)
    (hissued : .created request.condition.object .condition ∈ s.history) :
    (conditionWait owner caller request now).wp (fun start s' => Consistent past s' ∧
      Logged caller request.condition.object (some request.mutex) start s')
      (fun _ => Consistent past) s := by
  have hgood := hs
  obtain ⟨v, h, hc⟩ := hs
  unfold conditionWait
  rw [wp_bind]
  refine wp_requireCaller (fun _ => hgood) fun r hfind hprocess hsync hstate => ?_
  simp only [wp_quiet, object_eq_ok, hgood]
  rintro o ⟨howner, ho⟩ _ hown _
  obtain ⟨hprocess', o', poisoned, policy, ho', hkind'⟩ := requireOwner_eq_ok hown
  refine wp_clock (fun _ => hgood) ?_
  have h1 := h.atTime now
  have hcondition := h.condition_kind hc.ledger hissued ho
  have hmutex : v.kind request.mutex.object = some (.mutex (some caller) poisoned policy) := by
    rw [h.kind_eq ho', hkind']
  refine ⟨fun outcome _ => ?_, fun _ _ => h1.consistent hc⟩
  cases outcome with
  | some outcome => exact ⟨h1.consistent hc, fun _ hstart => by cases hstart⟩
  | none =>
    rw [wp_bind]
    refine h1.wp_admitWait hc.toBalanced (fun sequence => ?_) ?_ ?_ (fun _ => h1.consistent hc)
      fun token s2 v2 hthread h2 hc2 hadmitted => ?_
    · refine ⟨howner.trans hprocess.symm, fun hnone => (by cases hnone), fun m hm => ?_,
        fun _ hphase => by cases hphase⟩
      cases hm
      exact ⟨hcondition, hprocess'.trans hprocess.symm, _, _, _, hmutex⟩
    · intro poisoned' policy' hk
      rw [hcondition] at hk
      cases hk
    · intro count maximum hk
      rw [hcondition] at hk
      cases hk
    · -- the caller is asleep already when it gives up the mutex
      rw [← hthread] at hmutex hfind
      have howned := hadmitted.release hc.owned hmutex
        (hc.inv.quiet ((h.thread _).trans hfind) hsync)
      rw [← hadmitted.kind] at hmutex
      obtain ⟨r2, hr2, hretained⟩ := h2.holder_retains hc2.inv hmutex rfl
      rw [wp_bind]
      refine h2.wp_setOwner_none hmutex hr2 fun s3 h3 => ?_
      have hc3 := View.Consistent.rebase ⟨hc2.release hmutex hr2 hretained, { howned with }⟩
      rw [wp_bind]
      refine h3.wp_grantMutex hc3 (Function.update_self ..) fun s' v' h' hc' _ =>
        ⟨h'.consistent (hc'.weaken hc2.recorded.past), fun token' hstart => ?_⟩
      cases hstart
      rw [← h'.history]
      exact ⟨hthread, hc'.recorded.past.subset hadmitted.logged⟩

/-- What is queued on a condition waits for a notification. -/
theorem condition_wait {opened : Option ObjectId} (h : v.Inv opened)
    (hk : v.kind id = some .condition) (hi : i ∈ v.queue id) :
    ∃ w m, v.wait i = some w ∧ w.mutex = some m ∧ w.phase = .queued ∧ m.object ≠ id := by
  obtain ⟨w, hw, hplace⟩ := (h.member id i).mp hi
  rcases (h.sound i w hw).place_cases hplace with ⟨_, _, _, _, _, -, -, -, hk'⟩ |
    ⟨hphase, -, ⟨m, hm, hne, -⟩ | ⟨k, -, hk', hne⟩⟩
  · cases hk.symm.trans hk'
  · exact ⟨w, m, hw, hm, hphase, hne⟩
  · exact absurd (Option.mem_unique hk' hk) hne

/-- Each round moves the head of the queue to its mutex. -/
theorem Represents.wp_notifyLoop {condition : ConditionId} {all : Bool} {fuel notified : ℕ}
    (h : Represents s v) (hc : v.Consistent past none fun _ => 0)
    (hk : v.kind condition.object = some .condition)
    (hfuel : (v.queue condition.object).length < fuel) :
    (notifyLoop condition all now fuel notified).wp (fun _ => Consistent past)
      (fun _ => Consistent past) s := by
  induction fuel generalizing s v notified with
  | zero => cases hfuel
  | succ fuel ih =>
    rw [notifyLoop, wp_bind]
    refine h.wp_pop hk (fun _ => h.consistent hc) fun i q s1 hq h1 => ?_
    have hi : i ∈ v.queue condition.object := by simp [hq]
    obtain ⟨w, m, hw, hm, hphase, hne⟩ := condition_wait hc.inv hk hi
    obtain ⟨r, hr, -⟩ := hc.inv.asleep i w hw
    refine h1.wp_read hw fun w0 _ hinfo => ?_
    subst hinfo
    refine h1.wp_due hr ?_
    rw [wp_bind]
    refine h1.wp_reacquire hc hi hw hm hphase ?_ fun s2 v2 h2 hc2 hsame => ?_
    · cases hdue : dueOutcome r w0.options now with
      | none => simp
      | some cause => exact (dueOutcome_ne hdue).2
    obtain ⟨hkind, hqueue⟩ := hsame condition.object hne.symm
    have hnext : ∀ count, (notifyLoop condition all now fuel count).wp (fun _ => Consistent past)
        (fun _ => Consistent past) s2 := by
      intro count
      refine ih h2 hc2 (hkind.trans hk) ?_
      rw [hqueue]
      show (Function.update v.queue _ _ _).length < fuel
      rw [Function.update_self, hq, List.erase_cons_head]
      rw [hq, List.length_cons] at hfuel
      omega
    rw [wp_ite, wp_ite]
    exact ⟨fun _ => hnext _, fun _ => ⟨fun _ => hnext _, fun _ => h2.consistent hc2⟩⟩

/-- Waiters of the condition go on to their mutexes. -/
theorem notify_preserves {condition : ConditionId} {all : Bool} (hs : Consistent past s)
    (hissued : .created condition.object .condition ∈ s.history) :
    (notify owner caller condition all now).wp (fun _ => Consistent past)
      (fun _ => Consistent past) s := by
  have hgood := hs
  obtain ⟨v, h, hc⟩ := hs
  unfold notify
  rw [wp_bind]
  refine wp_requireCaller (fun _ => hgood) fun _ _ _ _ _ => ?_
  simp only [wp_quiet, object_eq_ok, hgood]
  rintro o ⟨-, ho⟩
  refine wp_clock (fun _ => hgood) ?_
  refine (h.atTime now).wp_notifyLoop hc (h.condition_kind hc.ledger hissued ho) ?_
  have := h.queue_length_le condition.object
  rw [h.waitSlots] at this
  omega

/-! ## Permits -/

/-- A permit is taken from the stock, or waited for. -/
theorem acquirePermit_preserves {permit : PermitId} :
    Preserves (acquirePermit owner caller permit mode now) := by
  rintro past s ⟨v, h, hc⟩
  have hgood : Consistent past s := ⟨v, h, hc⟩
  unfold acquirePermit
  rw [wp_bind]
  refine wp_requireCaller (fun _ => hgood) fun r hfind hprocess hsync hstate => ?_
  simp only [wp_quiet, object_eq_ok, hgood]
  rintro o ⟨howner, ho⟩
  have hk := h.kind_eq ho
  cases hkind : o.kind with
  | condition => exact hgood
  | mutex holder poisoned policy => exact hgood
  | permit count maximum =>
    rw [hkind] at hk
    simp only [wp_bind]
    refine wp_clock (fun _ => hgood) ?_
    have h1 := h.atTime now
    simp only [wp_ofExcept]
    refine ⟨fun outcome _ => ?_, fun _ _ => h1.consistent hc⟩
    cases outcome with
    | some outcome => exact h1.consistent hc
    | none =>
      rw [wp_ite]
      refine ⟨fun hcount => ?_, fun hcount => ?_⟩
      · obtain ⟨n, rfl⟩ := Nat.exists_eq_succ_of_ne_zero hcount
        rw [wp_bind]
        refine h1.wp_setKind (.permit n maximum) hk (fun o _ => rfl) rfl fun s2 h2 => ?_
        exact (h2.emit (.taken permit.object)).consistent (hc.take hk)
      · rw [not_not] at hcount
        refine Act.wp_ok_mono (h1.wp_waitOrTry hc hk (howner.trans hprocess.symm) (by simp)
          (by simp) ?_ (by simp)) fun _ _ h' => h'.1
        intro count' maximum' heq
        rw [Kind.permit.injEq] at heq
        rw [← heq.1, hcount]

/-! ## The end of a wait -/

theorem waitIndex_eq_ok {token : SyncWait} (h : s.sync.waitIndex owner token = .ok i) :
    ∃ w0, s.sync.waiter i = some w0 ∧ w0.token = token := by
  unfold SyncTable.waitIndex at h
  rw [bind_eq_ok] at h
  obtain ⟨_, -, h⟩ := h
  rw [okOr_eq_ok, List.findIdx?_eq_some_iff_getElem] at h
  obtain ⟨hlt, hany, -⟩ := h
  obtain ⟨w0, hw0, htoken⟩ := (Option.any_eq_true _ _).mp hany
  exact ⟨w0, by simp [SyncTable.waiter, slotAt, hlt, hw0], of_decide_eq_true htoken⟩

/-- A wait that is due is taken out of its queue. -/
theorem observe_preserves {token : SyncWait} : Preserves (observe owner token now) := by
  rintro past s ⟨v, h, hc⟩
  have hgood : Consistent past s := ⟨v, h, hc⟩
  unfold observe
  rw [wp_bind]
  refine wp_active (fun _ => hgood) ?_
  simp only [wp_rules]
  refine ⟨fun index hindex => ?_, fun _ _ => hgood⟩
  obtain ⟨w0, hw0, htoken⟩ := waitIndex_eq_ok hindex
  have hw : v.wait index = some w0.info := by rw [h.wait, hw0, map_some]
  refine wp_clock (fun _ => hgood) ?_
  have h1 := h.atTime now
  rw [wp_waiter (s := s.atTime now) hw0, wp_ite]
  refine ⟨fun _ => h1.consistent hc, fun hphase => ?_⟩
  rw [not_not] at hphase
  have hi : index ∈ v.queue w0.source := by
    refine (hc.inv.member _ _).mpr ⟨_, hw, ?_⟩
    simp [place, Waiter.info, hphase]
  obtain ⟨r, hr, -⟩ := hc.inv.asleep index _ hw
  rw [show w0.info.token = token from htoken] at hr
  refine h1.wp_due hr ?_
  cases hdue : dueOutcome r w0.options now with
  | none => exact h1.consistent hc
  | some cause =>
    rw [wp_bind]
    refine h1.wp_unlink hi fun s2 h2 => ?_
    rw [wp_bind, settle, wp_ite]
    refine ⟨fun hsome => ?_, fun hnone => ?_⟩
    · obtain ⟨m, hm⟩ := Option.isSome_iff_exists.mp hsome
      exact h2.wp_reacquire hc hi hw hm hphase (dueOutcome_ne hdue).2
        fun s' v' h' hc' _ => h'.consistent hc'
    · rw [Bool.not_eq_true, Option.isSome_eq_false_iff, Option.isNone_iff_eq_none] at hnone
      refine h2.wp_finish hc hi (fun w hw' => ?_) fun s' _ _ _ _ h' hc' => h'.consistent hc'
      obtain rfl := Option.mem_unique hw hw'
      exact WaitInfo.loses_of_mutex_eq_none hnone (dueOutcome_ne hdue).1

/-- A finished wait frees its slot and its thread. -/
theorem finishWait_preserves {token : SyncWait} : Preserves (finishWait owner caller token) := by
  rintro past s ⟨v, h, hc⟩
  have hgood : Consistent past s := ⟨v, h, hc⟩
  unfold finishWait
  rw [wp_bind]
  refine wp_active (fun _ => hgood) ?_
  simp only [wp_quiet, ofThread, mapError_eq_ok, ThreadTable.record_eq_ok, hgood, ne_eq, not_not]
  rintro hcaller r ⟨hprocess, hfind⟩ _ index hindex
  obtain ⟨w0, hw0, htoken⟩ := waitIndex_eq_ok hindex
  have hw : v.wait index = some w0.info := by rw [h.wait, hw0, map_some]
  have hr : v.thread caller = some r := by rw [h.thread, hfind]
  have hthread : w0.info.token.thread = caller := by
    show w0.token.thread = caller
    rw [htoken, hcaller]
  rw [wp_waiter hw0]
  cases hphase : w0.phase with
  | queued => exact hgood
  | reacquiring cause => exact hgood
  | complete outcome =>
    rw [wp_bind, Act.wp_modify, wp_bind, ← hprocess]
    -- the slot is the only one of the caller, and it is on no queue
    have hsingle : ∀ j x, v.wait j = some x → x.token.thread = caller → j = index :=
      fun j x hx heq => hc.inv.single j index x _ hx hw (heq.trans hthread.symm)
    have hout : ∀ id, index ∉ v.queue id := by
      intro id hi
      exact pending_of_place (hc.inv.place_of_mem hi hw) outcome hphase
    have h1 := h.setWaiter (lt_length_of_slotAt hw0) hout (w := none) rfl
    refine h1.wp_updateRecord hr rfl fun s2 h2 => Represents.consistent (v := v.forget caller r)
      ?_ (hc.forget hr fun j x hx heq hp => ?_)
    · have hwait : (v.setWait index none).wait = (v.forget caller r).wait := by
        funext j
        show Function.update v.wait index none j = (v.wait j).filter _
        by_cases hj : j = index
        · rw [hj, Function.update_self, hw, Option.filter_some]
          simp [hthread]
        · rw [Function.update_of_ne hj]
          cases hx : v.wait j with
          | none => rfl
          | some x =>
            rw [Option.filter_some, if_pos]
            exact decide_eq_true fun heq => hj (hsingle j x hx heq)
      exact { h2 with wait := fun j => by rw [← hwait]; exact h2.wait j }
    · have hj := hsingle j x hx heq
      rw [hj, hw, Option.some.injEq] at hx
      rw [← hx] at hp
      exact hp outcome hphase

end SyncState

/-! ## Releasing permits

`release_permits` first walks the queue to see how many permits will be left for the counter and
then grants. Both walks come to the same number, so that a release that is going to be rejected is
rejected before anything is written. -/

open Function (update update_of_ne)

namespace SyncState

variable {s : SyncState} {v : View} {i : ℕ} {id : ObjectId} {w : WaitInfo} {r : Record}
  {owner : ProcessId} {caller : ThreadId} {now : ℕ}

/-- What a release of `n` permits leaves for the counter: waits that are due take none. -/
def leftover (isDue : ℕ → Bool) : ℕ → List ℕ → ℕ
  | 0, _ => 0
  | n + 1, [] => n + 1
  | n + 1, i :: q => if isDue i then leftover isDue (n + 1) q else leftover isDue n q

theorem leftover_congr {isDue isDue' : ℕ → Bool} {q : List ℕ} (h : ∀ i ∈ q, isDue' i = isDue i)
    (n : ℕ) : leftover isDue' n q = leftover isDue n q := by
  induction q generalizing n with
  | nil => cases n <;> rfl
  | cons i q ih =>
    obtain ⟨hi, hq⟩ := List.forall_mem_cons.mp h
    cases n with
    | zero => rfl
    | succ n => rw [leftover, leftover, hi, ih hq, ih hq]

/-- Whether a wait is due, in a view. -/
def isDue (v : View) (now : ℕ) (i : ℕ) : Bool :=
  (v.wait i).any fun w => (v.thread w.token.thread).any fun r =>
    (dueOutcome r w.options now).isSome

theorem isDue_eq (hw : v.wait i = some w) (hr : v.thread w.token.thread = some r) :
    isDue v now i = (dueOutcome r w.options now).isSome := by
  rw [isDue, hw, any_some, hr, any_some]

variable {opened : Option ObjectId} {count maximum : ℕ} {permit : PermitId}

/-- What is queued on a permit object waits for that permit. -/
theorem permit_wait (h : v.Inv opened) (hk : v.kind id = some (.permit count maximum))
    (hi : i ∈ v.queue id) :
    ∃ w, v.wait i = some w ∧ w.source = id ∧ w.mutex = none ∧ w.phase = .queued := by
  obtain ⟨w, hw, hplace⟩ := (h.member id i).mp hi
  exact ⟨w, hw, (h.sound i w hw).permit_of_place hplace hk⟩

/-! ## The first walk -/

/-- The preflight of a consistent state does not fail. -/
theorem Represents.preflight_eq (h : Represents s v) (hinv : v.Inv opened)
    (hk : v.kind permit.object = some (.permit count maximum))
    (howner : permit.object.process = owner) {passed q : List ℕ}
    (hq : v.queue permit.object = passed ++ q) {fuel : ℕ} (hfuel : q.length ≤ fuel) (n : ℕ) :
    preflight s owner permit now fuel n q.head? = .ok (leftover (isDue v now) n q) := by
  obtain ⟨o, ho, -⟩ := h.find_eq hk
  induction q generalizing passed fuel n with
  | nil => cases n <;> simp [preflight, leftover]
  | cons i q ih =>
    cases n with
    | zero => simp [preflight, leftover]
    | succ n =>
      obtain ⟨fuel, rfl⟩ : ∃ f, fuel = f + 1 := ⟨fuel - 1, by simp at hfuel; omega⟩
      have hi : i ∈ v.queue permit.object := by simp [hq]
      obtain ⟨w, hw, hsource, hmutex, hphase⟩ := permit_wait hinv hk hi
      obtain ⟨w', r, hw', hplace, hr, hsync, hseq, hblocked⟩ := hinv.blocked_of_mem hi
      obtain rfl := Option.mem_unique hw hw'
      obtain ⟨w0, hw0, rfl⟩ := h.waiter_eq hw
      have hfind : s.threads.find w0.token.thread = some r := by
        rw [← h.thread]
        exact hr
      have hprocess : w0.token.thread.process = owner :=
        ((hinv.sound i _ hw).process_of_place hplace).symm.trans howner
      have hrecord : s.threads.record owner w0.token.thread = .ok r :=
        ThreadTable.record_eq_ok.mpr ⟨hprocess, hfind⟩
      have hqueued : w0.queuedOn = some permit.object := by
        have := (h.member permit.object i).mp hi
        rwa [queuedOn, hw0] at this
      have hnext : w0.next = q.head? := by
        obtain ⟨l, r', hsplit, -, -, -, hnext⟩ := (h.linked _ o ho).split hi
        -- the member is where the walk found it
        have hnodup := hinv.nodup permit.object
        rw [hq] at hnodup hsplit
        have hout := List.nodup_middle.mp hnodup
        rw [List.nodup_cons, List.mem_append, not_or] at hout
        have heq : q = r' := ((List.append_cons_inj_of_notMem hout.1.1 hout.1.2).mp hsplit).2.2
        rw [next, hw0] at hnext
        rw [heq]
        exact hnext
      have hok : inconsistent permit w0 r = false := by
        have hs : w0.source = permit.object := hsource
        have hm : w0.mutex = none := hmutex
        have hp : w0.phase = .queued := hphase
        have hq : r.waitSequence = w0.token.sequence := hseq
        simp [inconsistent, hs, hqueued, hm, hp, hsync, hblocked, hq]
      have hq' : v.queue permit.object = (passed ++ [i]) ++ q := by simp [hq]
      have hfuel' : q.length ≤ fuel := by simpa using hfuel
      have hrest := ih hq' hfuel'
      have hdue : isDue v now i = (dueOutcome r w0.options now).isSome := isDue_eq hw hr
      rw [List.head?_cons, preflight, leftover, hdue]
      simp only [hw0, okOr, Option.elim_some, hrecord, Except.mapError, rejectIf, hok,
        Bool.false_eq_true, if_false, due_eq hfind, bind, Except.bind]
      rw [hnext, hrest]
      cases dueOutcome r w0.options now <;> simp

/-! ## The second walk -/

/-- The granting loop: it ends with what the first walk promised. -/
theorem Represents.wp_releaseLoop {count maximum granted : ℕ} {Q : ℕ → SyncState → Prop}
    {R : SyncError → SyncState → Prop} {fuel n : ℕ} (h : Represents s v)
    (hc : v.Consistent past none (update (fun _ => 0) permit.object granted))
    (hk : v.kind permit.object = some (.permit count maximum))
    (hfuel : (v.queue permit.object).length < fuel)
    (hQ : ∀ s' v' granted' stored, Represents s' v' →
      v'.Consistent past none (update (fun _ => 0) permit.object granted') →
      v'.kind permit.object = some (.permit count maximum) →
      stored = leftover (isDue v now) n (v.queue permit.object) →
      granted' + stored = granted + n → (0 < stored → v'.queue permit.object = []) →
      Q stored s') :
    (releaseLoop permit now fuel n).wp Q R s := by
  induction fuel generalizing s v n granted with
  | zero => cases hfuel
  | succ fuel ih =>
    cases n with
    | zero =>
      exact hQ s v granted 0 h hc hk (by simp [leftover]) rfl fun h => by cases h
    | succ n =>
      rw [releaseLoop, wp_bind]
      refine h.wp_pop hk (fun hempty => ?_) fun i q s1 hq h1 => ?_
      · exact hQ s v granted (n + 1) h hc hk (by simp [hempty, leftover]) rfl fun _ => hempty
      have hi : i ∈ v.queue permit.object := by simp [hq]
      obtain ⟨w, r, hw, hplace, hr, hsync, hseq, hblocked⟩ := hc.inv.blocked_of_mem hi
      have hdue : isDue v now i = (dueOutcome r w.options now).isSome := isDue_eq hw hr
      -- the other waits are as due as they were
      have hsame : ∀ outcome, ∀ j ∈ q,
          isDue ((v.leave permit.object i).complete i w r outcome) now j = isDue v now j := by
        intro outcome j hj
        have hnodup := hc.inv.nodup permit.object
        rw [hq, List.nodup_cons] at hnodup
        have hji : j ≠ i := fun heq => hnodup.1 (heq ▸ hj)
        obtain ⟨x, hx, -⟩ := (hc.inv.member _ j).mp (show j ∈ v.queue permit.object by simp [hq, hj])
        have hne : x.token.thread ≠ w.token.thread := fun heq =>
          hji (hc.inv.single j i x w hx hw heq)
        show (any _ (update v.wait i _ j)) = _
        rw [update_of_ne hji, isDue, hx, any_some, any_some]
        show (any _ (update v.thread w.token.thread _ x.token.thread)) = _
        rw [update_of_ne hne]
      have hlength : q.length < fuel := by
        rw [hq, List.length_cons] at hfuel
        omega
      refine h1.wp_read hw fun w0 _ hinfo => ?_
      subst hinfo
      refine h1.wp_due hr ?_
      have hqueue := fun outcome => queue_complete hq w0.info r outcome
      have hdue' : isDue v now i = (dueOutcome r w0.options now).isSome := hdue
      cases houtcome : dueOutcome r w0.options now with
      | some outcome =>
        rw [wp_bind]
        refine h1.wp_completeWait hw (hc.inv.notMem_leave hi) hr hsync hblocked hseq fun s2 h2 => ?_
        have hloses := (hc.inv.sound i _ hw).loses_of_permit hplace hk outcome
        refine ih h2 (hc.finish hi hw hr hloses) hk (by rw [hqueue]; exact hlength)
          fun s' v' granted' stored h' hc' hk' hstored hsum hempty => ?_
        refine hQ s' v' granted' stored h' hc' hk' ?_ hsum hempty
        rw [hstored, hqueue, leftover_congr (hsame outcome), hq, leftover, hdue', houtcome]
        rfl
      | none =>
        rw [wp_bind]
        refine h1.wp_completeWait hw (hc.inv.notMem_leave hi) hr hsync hblocked hseq fun s2 h2 => ?_
        have hc2 := hc.grantPermit hk hq hw hr .acquired
        rw [Function.update_self, Function.update_idem] at hc2
        refine ih (h2.emit _) hc2 hk (lt_of_eq_of_lt (congrArg _ (hqueue .acquired)) hlength)
          fun s' v' granted' stored h' hc' hk' hstored hsum hempty => ?_
        refine hQ s' v' granted' stored h' hc' hk' ?_ (by omega) hempty
        rw [hq, leftover, hdue', houtcome, hstored]
        show leftover (isDue ((v.leave permit.object i).complete i w0.info r .acquired) now) n
          (((v.leave permit.object i).complete i w0.info r .acquired).queue permit.object) = _
        rw [hqueue, leftover_congr (hsame .acquired)]
        rfl

/-! ## The operation -/

/-- `release_permits`: an accepted call ends in a consistent state, a rejected one changes
nothing. -/
theorem wp_releasePermits {release : ℕ} (hs : Consistent past s) :
    (releasePermits owner caller permit release now).wp (fun _ => Consistent past) (fun _ s' => s' = s)
      s := by
  obtain ⟨v, h, hc⟩ := hs
  unfold releasePermits
  rw [wp_bind]
  refine wp_requireCaller (fun _ => rfl) fun _ _ _ _ _ => ?_
  simp only [wp_rules, object_eq_ok]
  refine ⟨fun _ => trivial, fun hrelease => ⟨?_, fun _ _ => trivial⟩⟩
  rintro o ⟨howner, ho⟩
  have hk := h.kind_eq ho
  cases hkind : o.kind with
  | condition => exact rfl
  | mutex holder poisoned policy => exact rfl
  | permit count maximum =>
    rw [hkind] at hk
    have hfuel : (v.queue permit.object).length ≤ s.sync.waits.length := by
      rw [← h.waitSlots]
      exact h.queue_length_le permit.object
    have hpreflight : preflight s owner permit now s.sync.waits.length release
        (v.queue permit.object).head? = .ok (leftover (isDue v now) release
          (v.queue permit.object)) :=
      h.preflight_eq hc.inv hk howner (List.nil_append _).symm hfuel release
    rw [← (h.linked _ o ho).head_eq] at hpreflight
    simp only [wp_rules, hpreflight, Except.ok.injEq, reduceCtorEq, implies_true, and_true,
      forall_eq', ok_rules]
    rintro room ⟨hle, rfl⟩
    refine ⟨trivial, fun hroom => ?_⟩
    rintro nextCount ⟨-, rfl⟩
    refine wp_clock (fun _ => rfl) ?_
    have hc1 : v.Consistent past none (update (fun _ => 0) permit.object 0) := by
      rw [Function.update_eq_self permit.object fun _ : ObjectId => 0]
      exact hc
    refine (h.atTime now).wp_releaseLoop hc1 hk (by omega)
      fun s2 v2 granted stored h2 hc2 hk2 hstored hsum hempty => ?_
    rw [← hstored]
    refine ⟨fun hne => absurd rfl hne, fun _ => ?_⟩
    refine h2.wp_setKind (.permit (count + stored) maximum) hk2 (fun o _ => rfl) rfl fun s3 h3 => ?_
    refine (h3.emit (.released permit.object release)).consistent
      (hc2.store hk2 (by omega) (fun hpos => ?_) (by omega))
    rcases Nat.eq_zero_or_pos stored with hzero | hpos'
    · -- with permits in store nobody waited, so that nothing was granted
      have hnil := (hc.inv.stock _ _ _ hk).2 (by omega)
      rw [hnil] at hstored
      obtain ⟨n, rfl⟩ := Nat.exists_eq_succ_of_ne_zero hrelease
      simp [leftover] at hstored
      omega
    · exact hempty hpos'

end SyncState

end Troe.Task
