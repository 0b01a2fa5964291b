import Troe.Task.SyncExit

/-!
# Runs of the synchronization table

A run starts with two new tables and performs calls on them, each of which may be accepted or
rejected. Every state of a run is consistent, and the history of a run only grows.
-/

namespace Troe.Task

open Lib
open Act (bind_of_ok wp_bind wp_iff wp_ok_mono)

/-- A call on the synchronization table, or on the thread table it is paired with. -/
inductive SyncCall where
  | registerProcess (owner : ProcessId) (quota : SyncQuota)
  | removeProcess (owner : ProcessId)
  | createMutex (owner : ProcessId) (caller : ThreadId) (policy : OwnerDeath)
  | createCondition (owner : ProcessId) (caller : ThreadId)
  | createPermit (owner : ProcessId) (caller : ThreadId) (initial maximum : ℕ)
  | destroy (owner : ProcessId) (caller : ThreadId) (id : ObjectId)
  | lock (owner : ProcessId) (caller : ThreadId) (mutex : MutexId) (mode : WaitMode) (now : ℕ)
  | unlock (owner : ProcessId) (caller : ThreadId) (mutex : MutexId) (now : ℕ)
  | conditionWait (owner : ProcessId) (caller : ThreadId) (request : ConditionWait) (now : ℕ)
  | notify (owner : ProcessId) (caller : ThreadId) (condition : ConditionId) (all : Bool) (now : ℕ)
  | acquirePermit (owner : ProcessId) (caller : ThreadId) (permit : PermitId) (mode : WaitMode)
      (now : ℕ)
  | releasePermits (owner : ProcessId) (caller : ThreadId) (permit : PermitId) (release now : ℕ)
  | observe (owner : ProcessId) (token : SyncWait) (now : ℕ)
  | finishWait (owner : ProcessId) (caller : ThreadId) (token : SyncWait)
  | beginExit (owner : ProcessId) (caller : ThreadId) (now : ℕ)
  | stopProcess (owner : ProcessId)
  | threads (call : ThreadCall)

/-- What a call answers. -/
inductive SyncReply where
  | done
  | mutex (id : MutexId)
  | condition (id : ConditionId)
  | permit (id : PermitId)
  | started (start : SyncStart)
  | notified (count : ℕ)
  | observed (changed : Bool)
  | finished (outcome : SyncOutcome)
  | exited (effect : ExitEffect)
  | threads (reply : ThreadReply)

namespace SyncCall

open SyncState in
/-- Perform a call. -/
def perform : SyncCall → SyncAct SyncReply
  | registerProcess owner quota => do
    SyncState.registerProcess owner quota
    return .done
  | removeProcess owner => do
    SyncState.removeProcess owner
    return .done
  | createMutex owner caller policy =>
    return .mutex (← SyncState.createMutex owner caller policy)
  | createCondition owner caller => return .condition (← SyncState.createCondition owner caller)
  | createPermit owner caller initial maximum =>
    return .permit (← SyncState.createPermit owner caller initial maximum)
  | destroy owner caller id => do
    SyncState.destroy owner caller id
    return .done
  | lock owner caller mutex mode now =>
    return .started (← SyncState.lock owner caller mutex mode now)
  | unlock owner caller mutex now => do
    SyncState.unlock owner caller mutex now
    return .done
  | conditionWait owner caller request now =>
    return .started (← SyncState.conditionWait owner caller request now)
  | notify owner caller condition all now =>
    return .notified (← SyncState.notify owner caller condition all now)
  | acquirePermit owner caller permit mode now =>
    return .started (← SyncState.acquirePermit owner caller permit mode now)
  | releasePermits owner caller permit release now => do
    SyncState.releasePermits owner caller permit release now
    return .done
  | observe owner token now => return .observed (← SyncState.observe owner token now)
  | finishWait owner caller token =>
    return .finished (← SyncState.finishWait owner caller token)
  | beginExit owner caller now => return .exited (← SyncState.beginExit owner caller now)
  | stopProcess owner => do
    SyncState.stopProcess owner
    return .done
  | threads call => return .threads (← onThreads call.perform)

/-- The handle of a condition comes from `create_condition`, or from `resolve_condition`, which checks
the kind of the object. The operations on conditions rely on it: they do not. -/
def Issued (history : List SyncEvent) : SyncCall → Prop
  | conditionWait _ _ request _ => .created request.condition.object .condition ∈ history
  | notify _ _ condition _ _ => .created condition.object .condition ∈ history
  | _ => True

instance (history : List SyncEvent) (call : SyncCall) : Decidable (call.Issued history) := by
  unfold Issued
  split <;> infer_instance

end SyncCall

namespace SyncState

variable {s s' : SyncState} {past : List SyncEvent}

/-! ## Steps -/

/-- A call takes consistent states to consistent states, accepted or rejected. -/
theorem perform_consistent (call : SyncCall) (hissued : call.Issued s.history)
    (hs : Consistent past s) : Consistent past (call.perform s).2 := by
  refine Act.snd_of_wp ?_
  cases call with
  | registerProcess => exact wp_bind.mpr (registerProcess_preserves past s hs)
  | removeProcess => exact wp_bind.mpr (removeProcess_preserves past s hs)
  | createMutex => exact wp_bind.mpr (createMutex_preserves past s hs)
  | createCondition => exact wp_bind.mpr (createCondition_preserves past s hs)
  | createPermit => exact wp_bind.mpr (createPermit_preserves past s hs)
  | destroy => exact wp_bind.mpr (destroy_preserves past s hs)
  | lock => exact wp_bind.mpr (wp_ok_mono (wp_lock hs) fun _ _ h => h.1)
  | unlock => exact wp_bind.mpr (unlock_preserves past s hs)
  | conditionWait =>
    exact wp_bind.mpr (wp_ok_mono (wp_conditionWait hs hissued) fun _ _ h => h.1)
  | notify => exact wp_bind.mpr (notify_preserves hs hissued)
  | acquirePermit => exact wp_bind.mpr (acquirePermit_preserves past s hs)
  | releasePermits =>
    exact wp_bind.mpr (Act.wp_mono (wp_releasePermits hs) (fun _ _ h => h) fun _ _ h => h ▸ hs)
  | observe => exact wp_bind.mpr (observe_preserves past s hs)
  | finishWait => exact wp_bind.mpr (finishWait_preserves past s hs)
  | beginExit => exact wp_bind.mpr (wp_ok_mono (wp_beginExit hs) fun _ _ h => h.1)
  | stopProcess => exact wp_bind.mpr (wp_ok_mono (wp_stopProcess hs) fun _ _ h => h.1)
  | threads call => exact wp_bind.mpr (onThreads_preserves call.staysCalm past s hs)

/-- One call with issued handles. -/
def Step (s s' : SyncState) : Prop :=
  ∃ call : SyncCall, call.Issued s.history ∧ s' = (call.perform s).2

/-- Any number of calls. -/
def Steps : SyncState → SyncState → Prop := Relation.ReflTransGen Step

/-- Two new tables. -/
structure Initial (s : SyncState) : Prop where
  threads : ∃ processes threads pages maxMetadataBytes requestedBytes retainedBytes granted,
    ThreadTable.new processes threads pages maxMetadataBytes requestedBytes retainedBytes granted
      = .ok s.threads
  sync : ∃ processes objects waits maxMetadataBytes requestedBytes retainedBytes granted,
    SyncTable.new processes objects waits maxMetadataBytes requestedBytes retainedBytes granted
      = .ok s.sync
  history : s.history = []

/-- A state of a run. -/
def Reachable (s : SyncState) : Prop := ∃ s₀, Initial s₀ ∧ Steps s₀ s

/-! ## Runs -/

/-- A view of two new tables. -/
def emptyView (waitSlots objectSlots : ℕ) : View where
  wait _ := none
  queue _ := []
  kind _ := none
  thread _ := none
  owned _ := 0
  history := []
  waitSlots := waitSlots
  objectSlots := objectSlots
  objectGeneration _ := 0
  threadGeneration _ := 0

theorem emptyView_consistent (waitSlots objectSlots : ℕ) :
    (emptyView waitSlots objectSlots).Consistent [] none fun _ => 0 := by
  refine ⟨⟨?_, ?_, ?_, ?_⟩, ?_⟩ <;> constructor <;> simp [emptyView, arrivals, grants, View.tokens]

theorem Initial.consistent (h : Initial s) : Consistent [] s := by
  obtain ⟨processes, slots, pages, _, _, _, _, hthreads⟩ := h.threads
  obtain ⟨processes', objects, waits, _, _, _, _, hsync⟩ := h.sync
  simp only [ThreadTable.new, ok_rules] at hthreads
  obtain ⟨_, -, _, -, _, -, _, -, _, -, hthreads⟩ := hthreads
  simp only [SyncTable.new, ok_rules] at hsync
  obtain ⟨_, -, _, -, _, -, _, -, hsync⟩ := hsync
  obtain ⟨threads, sync, history⟩ := s
  cases hthreads
  cases hsync
  have hwaiter : ∀ i, slotAt (List.replicate waits (none : Option Waiter)) i = none :=
    slotAt_replicate waits
  have hfind : ∀ id : ObjectId, ((GenSlab.empty objects : GenSlab Object).value id.slot).filter
      (·.id = id) = none := fun id => by rw [GenSlab.value_empty, Option.filter_none]
  refine ⟨emptyView waits objects, ?_, emptyView_consistent waits objects⟩
  exact
    { wait := fun i => (congrArg (Option.map Waiter.info) (hwaiter i)).symm
      kind := fun id => (congrArg (Option.map Object.kind) (hfind id)).symm
      thread := fun t => by
        show none = ((GenSlab.empty slots : GenSlab Record).value t.slot).filter _
        rw [GenSlab.value_empty, Option.filter_none]
      owned := fun t => (GenSlab.count_empty objects _).symm
      history := h.history.symm
      waitSlots := (List.length_replicate ..).symm
      objectSlots := (List.length_replicate ..).symm
      objectGeneration := fun k => (GenSlab.generation_empty objects k).symm
      threadGeneration := fun k => (GenSlab.generation_empty slots k).symm
      slot := fun k o ho => by cases (GenSlab.value_empty objects k).symm.trans ho
      linked := fun id o ho => by cases (hfind id).symm.trans ho
      dead := fun _ _ => rfl
      member := fun id i => by
        refine iff_of_false (by simp [emptyView]) fun hqueued => ?_
        rw [queuedOn, SyncTable.waiter, hwaiter] at hqueued
        cases hqueued }

theorem Steps.consistent (hsteps : Steps s s') (hs : Consistent past s) : Consistent past s' := by
  induction hsteps with
  | refl => exact hs
  | tail _ hstep ih =>
    obtain ⟨call, hissued, rfl⟩ := hstep
    exact perform_consistent call hissued ih

theorem Reachable.consistent (h : Reachable s) : Consistent [] s := by
  obtain ⟨s₀, hinitial, hsteps⟩ := h
  exact hsteps.consistent hinitial.consistent

theorem Reachable.steps (h : Reachable s) (hsteps : Steps s s') : Reachable s' := by
  obtain ⟨s₀, hinitial, hfirst⟩ := h
  exact ⟨s₀, hinitial, hfirst.trans hsteps⟩

/-- What a run has logged stays logged, and consistent with the state. -/
theorem Reachable.consistent_of_steps (h : Reachable s) (hsteps : Steps s s') :
    Consistent s.history s' :=
  hsteps.consistent h.consistent.rebase

theorem step_perform (call : SyncCall) (hissued : call.Issued s.history) :
    Steps s (call.perform s).2 :=
  .single ⟨call, hissued, rfl⟩

theorem steps_of_ok (call : SyncCall) (hissued : call.Issued s.history)
    {reply : Except SyncError SyncReply} (h : call.perform s = (reply, s')) : Steps s s' := by
  have hstep := step_perform call hissued
  rwa [h] at hstep

/-! ## Running a list of calls -/

/-- Perform calls in order, as long as their handles were issued. -/
def run (s : SyncState) : List SyncCall → Option SyncState
  | [] => some s
  | call :: calls => if call.Issued s.history then run (call.perform s).2 calls else none

theorem steps_of_run {calls : List SyncCall} (h : run s calls = some s') : Steps s s' := by
  induction calls generalizing s with
  | nil =>
    cases h
    exact .refl
  | cons call calls ih =>
    rw [run] at h
    split at h
    next hissued => exact (step_perform call hissued).trans (ih h)
    · cases h

end SyncState

/-! ## What holds in every run -/

namespace SyncState

variable {s s₁ s₂ s' : SyncState} {past : List SyncEvent} {v : View} {id : ObjectId} {o : Object}
  {owner owner' : ProcessId} {caller caller' : ThreadId} {token : SyncWait} {outcome : SyncOutcome}
  {mutex : MutexId} {mode : WaitMode} {now i : ℕ} {w : Waiter}

/-! ## A sample run

Two threads of one process and a mutex the second thread waits for. -/

/-- New tables for one process with two threads, two objects and two waits. -/
def sampleTables : SyncState where
  threads :=
    { processes := [none], slots := GenSlab.empty 2, pageLimit := 2, nextJoin := 1,
      maxProcessThreads := 2, processCursor := 0, dispatchSequence := 0, activeDispatch := none,
      dispatchClock := none }
  sync := { processes := [none], objects := GenSlab.empty 2, waits := [none, none], lastNow := 0 }
  history := []

def sampleFirst : ThreadId := { process := 7, slot := 0, generation := 1 }

def sampleSecond : ThreadId := { process := 7, slot := 1, generation := 1 }

def sampleMutex : MutexId := { object := { process := 7, slot := 0, generation := 1 } }

/-- The second thread runs while the first one owns the mutex. -/
def sampleSetup : List SyncCall :=
  [.threads (.registerProcess 7 { records := 2, pages := 2 }),
    .registerProcess 7 { objects := 2, waits := 2 },
    .threads (.prepareInitial 7 { reservation := 1, pages := 1 }),
    .threads (.start 7 sampleFirst), .threads (.dispatch 7 sampleFirst),
    .threads (.prepareWorker 7 sampleFirst { reservation := 2, pages := 1 }),
    .threads (.start 7 sampleSecond), .createMutex 7 sampleFirst .poison,
    .lock 7 sampleFirst sampleMutex .try 0, .threads (.yieldRunning 7 sampleFirst),
    .threads (.dispatch 7 sampleSecond)]

/-- The second thread waits for the mutex. -/
def sampleWait : SyncCall :=
  .lock 7 sampleSecond sampleMutex (.wait { deadline := none, observeStop := false }) 0

/-- The first thread unlocks the mutex, and the second one runs again. -/
def sampleHandover : List SyncCall :=
  [.threads (.dispatch 7 sampleFirst), .unlock 7 sampleFirst sampleMutex 1,
    .threads (.yieldRunning 7 sampleFirst), .threads (.dispatch 7 sampleSecond)]

/-- The state a list of calls leads to. -/
def sampleAfter (calls : List SyncCall) : SyncState := (run sampleTables calls).getD sampleTables

theorem sampleTables_initial : Initial sampleTables :=
  ⟨⟨1, 2, 2, 0, 0, 0, true, rfl⟩, ⟨1, 2, 2, 0, 0, 0, true, rfl⟩, rfl⟩

theorem sampleAfter_reachable (calls : List SyncCall) (h : (run sampleTables calls).isSome) :
    Reachable (sampleAfter calls) := by
  obtain ⟨s, hs⟩ := Option.isSome_iff_exists.mp h
  refine ⟨sampleTables, sampleTables_initial, ?_⟩
  rw [sampleAfter, hs]
  exact steps_of_run hs

/-! ## The tables agree -/

/-- The links of every queue spell out the waits that are recorded as queued on its object. -/
structure QueuesLinked (s : SyncState) (queue : ObjectId → List ℕ) : Prop where
  linked : ∀ id o, s.sync.find id = some o →
    Linked s.previous s.next o.queue.head o.queue.tail (queue id)
  nodup : ∀ id, (queue id).Nodup
  member : ∀ id i, i ∈ queue id ↔ s.queuedOn i = some id

/-- The synchronization table and the thread table agree in every state of a run. -/
theorem tables_agree (hs : Reachable s) :
    (∃ queue, QueuesLinked s queue) ∧
    (∀ i w, s.sync.waiter i = some w → w.queuedOn = w.info.place) ∧
    (∀ i w, s.sync.waiter i = some w → w.phase.Pending → ∃ r,
      s.threads.find w.token.thread = some r ∧ r.snapshot.state = .blocked ∧
        r.waitSequence = w.token.sequence) ∧
    ∀ t r, s.threads.find t = some r → r.ownedMutexes = s.ownedCount t := by
  obtain ⟨v, h, hc⟩ := hs.consistent
  have hwait : ∀ i w, s.sync.waiter i = some w → v.wait i = some w.info := by
    intro i w hw
    rw [h.wait, hw, Option.map_some]
  refine ⟨⟨v.queue, h.linked, h.queue_nodup, h.member⟩, fun i w hw => ?_, fun i w hw hp => ?_,
    fun t r hr => ?_⟩
  · -- both sides name the queue the wait is a member of
    have hqueued : s.queuedOn i = w.queuedOn := by rw [queuedOn, hw, Option.bind_some]
    refine Option.ext fun id => ?_
    rw [← hqueued]
    refine (h.member id i).symm.trans ((hc.inv.member id i).trans ⟨?_, ?_⟩)
    · rintro ⟨x, hx, hplace⟩
      rw [hwait i w hw, Option.some.injEq] at hx
      rw [hx]
      exact hplace
    · exact fun hplace => ⟨_, hwait i w hw, hplace⟩
  · obtain ⟨r, hr, -, hseq, hblocked⟩ := hc.inv.asleep i _ (hwait i w hw)
    exact ⟨r, (h.thread _).symm.trans hr, hblocked hp, hseq⟩
  · rw [← h.owned]
    exact hc.inv.counted t r ((h.thread t).trans hr)

/-- The waiting thread of the sample run is blocked and on the queue of the mutex. -/
theorem tables_agree_sample :
    (sampleAfter (sampleSetup ++ [sampleWait])).queuedOn 0 = some sampleMutex.object ∧
      ∃ queue, QueuesLinked (sampleAfter (sampleSetup ++ [sampleWait])) queue :=
  ⟨by decide +kernel, (tables_agree (sampleAfter_reachable _ (by decide +kernel))).1⟩

/-! ## Wakeups and permits -/

/-- The owner of a mutex. -/
def ownerOf (s : SyncState) (id : ObjectId) : Option ThreadId :=
  (s.sync.find id).bind (·.kind.owner)

/-- `finish_wait` answers what was decided for the wait, and leaves the objects alone. -/
theorem finishWait_spec (h : finishWait owner caller token s = (.ok outcome, s')) :
    ∃ i w, s.sync.waiter i = some w ∧ w.token = token ∧ w.phase = .complete outcome ∧
      s'.sync.objects = s.sync.objects := by
  have hwp : (finishWait owner caller token).wp (fun outcome s' => ∃ i w,
      s.sync.waiter i = some w ∧ w.token = token ∧ w.phase = .complete outcome ∧
        s'.sync.objects = s.sync.objects) (fun _ _ => True) s := by
    unfold finishWait
    rw [wp_bind]
    refine wp_active (fun _ => trivial) ?_
    simp only [wp_quiet, ofThread]
    refine fun _ r _ _ i hi => ?_
    obtain ⟨w, hw, htoken⟩ := waitIndex_eq_ok hi
    rw [wp_waiter hw]
    cases hphase : w.phase with
    | queued => trivial
    | reacquiring cause => trivial
    | complete outcome =>
      rw [wp_bind, Act.wp_modify, wp_bind, wp_onThreads]
      exact wp_iff.mpr ⟨fun _ _ _ => ⟨i, w, hw, htoken, hphase, rfl⟩, fun _ _ _ => trivial⟩
  exact (wp_iff.mp hwp).1 outcome s' h

theorem ownerOf_of_objects_eq (h : s'.sync.objects = s.sync.objects) (id : ObjectId) :
    s'.ownerOf id = s.ownerOf id := by
  unfold ownerOf SyncTable.find
  rw [h]

theorem Represents.ownerOf_eq (h : Represents s v) :
    s.ownerOf id = (v.kind id).bind Kind.owner := by
  rw [h.kind, ownerOf]
  cases s.sync.find id <;> rfl

/-- `lock` is only answered for a mutex. -/
theorem lock_mutex {start : SyncStart} (h : lock owner caller mutex mode now s = (.ok start, s')) :
    ∃ o owner poisoned policy, s.sync.find mutex.object = some o ∧
      o.kind = .mutex owner poisoned policy := by
  have hwp : (lock owner caller mutex mode now).wp (fun _ _ => ∃ o owner poisoned policy,
      s.sync.find mutex.object = some o ∧ o.kind = .mutex owner poisoned policy)
      (fun _ _ => True) s := by
    unfold lock
    rw [wp_bind]
    refine wp_requireCaller (fun _ => trivial) fun _ _ _ _ _ => ?_
    simp only [wp_quiet, object_eq_ok]
    rintro o ⟨-, ho⟩
    cases hkind : o.kind with
    | condition => trivial
    | permit count maximum => trivial
    | mutex holder poisoned policy =>
      exact wp_iff.mpr ⟨fun _ _ _ => ⟨o, holder, poisoned, policy, ho, hkind⟩, fun _ _ _ => trivial⟩
  exact (wp_iff.mp hwp).1 start s' h

/-- An object that was a mutex is one as long as it is alive. -/
theorem mutex_of_steps (hs : Reachable s) (hsteps : Steps s s') {o' : Object}
    {owner : Option ThreadId} {poisoned : Bool} {policy : OwnerDeath}
    (ho : s.sync.find id = some o) (hkind : o.kind = .mutex owner poisoned policy)
    (ho' : s'.sync.find id = some o') :
    ∃ owner poisoned policy, o'.kind = .mutex owner poisoned policy := by
  obtain ⟨v, h, hc⟩ := hs.consistent
  obtain ⟨v', h', hc'⟩ := hs.consistent_of_steps hsteps
  obtain ⟨k₀, hcreated⟩ := hc.ledger.born id _ (h.kind_eq ho)
  have hsort := hc.ledger.kinds id k₀ _ hcreated (h.kind_eq ho)
  rw [h.history] at hcreated
  have hsame := hc'.ledger.kinds id k₀ _ (hc'.recorded.past.subset hcreated) (h'.kind_eq ho')
  rw [hkind] at hsort
  cases k₀ with
  | mutex => exact hsame.mutex
  | condition => exact hsort.elim
  | permit => exact hsort.elim

/-- A wait that is over tells whether its thread owns the mutex. -/
theorem ownerOf_iff_holds (hs : Consistent past s)
    (hw : s.sync.waiter i = some w) (hmutex : ∀ o, s.sync.find w.info.target = some o →
      ∃ owner poisoned policy, o.kind = .mutex owner poisoned policy) :
    s.ownerOf w.info.target = some w.token.thread ↔ w.info.Holds := by
  obtain ⟨v, h, hc⟩ := hs
  have hv : v.wait i = some w.info := by rw [h.wait, hw, Option.map_some]
  obtain ⟨k, hk⟩ := (hc.inv.sound i _ hv).kind_target
  obtain ⟨o, ho, rfl⟩ := h.find_eq hk
  obtain ⟨owner, poisoned, policy, hkind⟩ := hmutex o ho
  rw [hkind] at hk
  rw [h.ownerOf_eq, hk]
  exact hc.owned.holds i _ owner poisoned policy hv hk

/-- What the history says of the wait with a token is what the wait slot says. -/
theorem Consistent.wait_eq (hs : Consistent past s)
    {source : ObjectId} {mutex : Option MutexId} (hlogged : .waits token source mutex ∈ past)
    (hw : s.sync.waiter i = some w) (htoken : w.token = token) :
    w.source = source ∧ w.mutex = mutex := by
  obtain ⟨v, h, hc⟩ := hs
  have hv : v.wait i = some w.info := by rw [h.wait, hw, Option.map_some]
  rw [← htoken] at hlogged
  exact hc.recorded.waits i _ source mutex hv (hc.recorded.past.subset hlogged)

theorem lock_finish (hs : Reachable s)
    (hlock : lock owner caller mutex mode now s = (.ok (.waiting token), s₁))
    (hsteps : Steps s₁ s₂) (hfinish : finishWait owner' caller' token s₂ = (.ok outcome, s')) :
    s'.ownerOf mutex.object = some caller ↔ outcome = .acquired := by
  obtain ⟨hs₁, hlogged⟩ :=
    (wp_iff.mp (wp_lock hs.consistent.rebase)).1 _ _ hlock
  obtain ⟨hthread, hlogged⟩ := hlogged token rfl
  have hstep : Steps s s₁ := steps_of_ok (.lock owner caller mutex mode now) trivial
    (bind_of_ok hlock _)
  have hs₂ := (hs.steps hstep).consistent_of_steps hsteps
  obtain ⟨i, w, hw, htoken, hphase, hobjects⟩ := finishWait_spec hfinish
  obtain ⟨hsource, hmutex⟩ := hs₂.wait_eq hlogged hw htoken
  have htarget : w.info.target = mutex.object := by
    rw [WaitInfo.target_of_none hmutex]
    exact hsource
  have hiff := ownerOf_iff_holds hs₂ hw fun o ho => by
    obtain ⟨o₀, _, _, _, ho₀, hkind₀⟩ := lock_mutex hlock
    rw [htarget] at ho
    exact mutex_of_steps hs (hstep.trans hsteps) ho₀ hkind₀ ho
  rw [htarget, htoken, hthread] at hiff
  rw [ownerOf_of_objects_eq hobjects, hiff]
  simp [WaitInfo.Holds, Waiter.info, hphase, hmutex]

theorem conditionWait_finish (hs : Reachable s) {request : ConditionWait}
    (hissued : .created request.condition.object .condition ∈ s.history)
    (hwait : conditionWait owner caller request now s = (.ok (.waiting token), s₁))
    (hsteps : Steps s₁ s₂) (hfinish : finishWait owner' caller' token s₂ = (.ok outcome, s')) :
    s'.ownerOf request.mutex.object = some caller ↔ outcome ≠ .poisoned := by
  obtain ⟨hs₁, hlogged⟩ := (wp_iff.mp (wp_conditionWait hs.consistent.rebase hissued)).1 _ _ hwait
  obtain ⟨hthread, hlogged⟩ := hlogged token rfl
  have hstep : Steps s s₁ := steps_of_ok (.conditionWait owner caller request now) hissued
    (bind_of_ok hwait _)
  have hs₂ := (hs.steps hstep).consistent_of_steps hsteps
  obtain ⟨i, w, hw, htoken, hphase, hobjects⟩ := finishWait_spec hfinish
  obtain ⟨-, hmutex⟩ := hs₂.wait_eq hlogged hw htoken
  have htarget : w.info.target = request.mutex.object := WaitInfo.target_of_some hmutex
  have hiff := ownerOf_iff_holds hs₂ hw fun o ho => by
    -- a wait that gives up a mutex is for a mutex
    obtain ⟨v, h, hc⟩ := hs₂
    have hv : v.wait i = some w.info := by rw [h.wait, hw, Option.map_some]
    obtain ⟨-, -, holder, poisoned, policy, hk⟩ := (hc.inv.sound i _ hv).condition _ hmutex
    rw [htarget] at ho
    exact ⟨holder, poisoned, policy, Option.some.inj ((h.kind_eq ho).symm.trans hk)⟩
  rw [htarget, htoken, hthread] at hiff
  rw [ownerOf_of_objects_eq hobjects, hiff]
  simp [WaitInfo.Holds, Waiter.info, hphase, hmutex]

/-- A mutex whose owner exits never has an owner again. -/
theorem beginExit_ownerless (hs : Reachable s)
    {effect : ExitEffect} (howner : s.ownerOf id = some caller)
    (hexit : beginExit owner caller now s = (.ok effect, s₁)) (hsteps : Steps s₁ s₂) :
    s₂.ownerOf id = none := by
  obtain ⟨o, ho, hholder⟩ := Option.bind_eq_some_iff.mp howner
  obtain ⟨hs₁, hretired⟩ :=
    (wp_iff.mp (wp_beginExit hs.consistent)).1 _ _ hexit
  have hstep : Steps s s₁ := steps_of_ok (.beginExit owner caller now) trivial (bind_of_ok hexit _)
  obtain ⟨v, h, hc⟩ := (hs.steps hstep).consistent_of_steps hsteps
  have hlogged : .retired id ∈ s₁.history := by
    cases hkind : o.kind with
    | mutex holder poisoned policy =>
      rw [hkind] at hholder
      exact hretired id o poisoned policy ho (by rw [hkind, show holder = some caller from hholder])
    | condition | permit count maximum =>
      rw [hkind] at hholder
      cases hholder
  rw [h.ownerOf_eq]
  cases hk : v.kind id with
  | none => rfl
  | some k =>
    obtain ⟨policy, rfl⟩ := hc.recorded.retired id k (hc.recorded.past.subset hlogged) hk
    rfl

/-- Mutual exclusion through wait outcomes. The first two clauses follow a wait from the call that
starts it, through any calls, to the `finish_wait` that collects its outcome. -/
theorem outcomes_decide_ownership (hs : Reachable s) :
    (∀ owner owner' caller caller' mutex mode now token outcome s₁ s₂ s',
      lock owner caller mutex mode now s = (.ok (.waiting token), s₁) → Steps s₁ s₂ →
      finishWait owner' caller' token s₂ = (.ok outcome, s') →
      (s'.ownerOf mutex.object = some caller ↔ outcome = .acquired)) ∧
    (∀ owner owner' caller caller' request now token outcome s₁ s₂ s',
      .created request.condition.object .condition ∈ s.history →
      conditionWait owner caller request now s = (.ok (.waiting token), s₁) → Steps s₁ s₂ →
      finishWait owner' caller' token s₂ = (.ok outcome, s') →
      (s'.ownerOf request.mutex.object = some caller ↔ outcome ≠ .poisoned)) ∧
    (∀ id t t', s.ownerOf id = some t → s.ownerOf id = some t' → t = t') ∧
    ∀ owner caller now effect id s₁ s₂, s.ownerOf id = some caller →
      beginExit owner caller now s = (.ok effect, s₁) → Steps s₁ s₂ → s₂.ownerOf id = none :=
  ⟨fun _ _ _ _ _ _ _ _ _ _ _ _ hlock hsteps hfinish => lock_finish hs hlock hsteps hfinish,
    fun _ _ _ _ _ _ _ _ _ _ _ hissued hwait hsteps hfinish =>
      conditionWait_finish hs hissued hwait hsteps hfinish,
    fun _ _ _ ht ht' => Option.mem_unique ht ht',
    fun _ _ _ _ _ _ _ howner hexit hsteps => beginExit_ownerless hs howner hexit hsteps⟩

/-- The second thread of the sample run owns the mutex when it collects its outcome. -/
theorem outcomes_decide_ownership_sample :
    (finishWait 7 sampleSecond { thread := sampleSecond, sequence := 1 }
      (sampleAfter (sampleSetup ++ [sampleWait] ++ sampleHandover))).2.ownerOf sampleMutex.object
      = some sampleSecond := by
  have hsteps : Steps (sampleAfter (sampleSetup ++ [sampleWait]))
      (sampleAfter (sampleSetup ++ [sampleWait] ++ sampleHandover)) := by
    have hrun : run (sampleAfter (sampleSetup ++ [sampleWait])) sampleHandover
        = some (sampleAfter (sampleSetup ++ [sampleWait] ++ sampleHandover)) := by decide +kernel
    exact steps_of_run hrun
  exact ((outcomes_decide_ownership (sampleAfter_reachable sampleSetup (by decide +kernel))).1
    7 7 sampleSecond sampleSecond sampleMutex (.wait { deadline := none, observeStop := false }) 0
    { thread := sampleSecond, sequence := 1 } .acquired _ _ _ (by decide +kernel) hsteps
    (by decide +kernel)).mpr rfl

end SyncState

end Troe.Task
