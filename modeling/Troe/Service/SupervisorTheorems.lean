import Mathlib.Data.List.Chain
import Troe.Service.Supervisor

/-!
# Runs of the supervisor

Every notification works on one record and keeps its bookkeeping: restarts stay within their limit,
and what follows a stop is recorded exactly while the service is stopping. `next_action` hands out
the action of the first record that calls for one, so it returns nothing exactly when every record is
settled, and stays so until the next deadline.
-/

namespace Troe.Supervisor

open Lib
open ServiceRecord (act beginStop deadline expired)

/-! ## Bookkeeping -/

/-- The bookkeeping of a record. -/
structure Sound (record : ServiceRecord) : Prop where
  restarts : record.restarts ≤ record.policy.restartLimit
  afterStop : record.afterStop ≠ none ↔ record.state.isStopping

/-- The action on the whole system that a policy asks for when its service fails. -/
def ServicePolicy.systemAction (policy : ServicePolicy) : Option SupervisorAction :=
  match policy.failureAction with
  | .previousGeneration => some (.activatePreviousGeneration policy.id)
  | .recoveryShell => some (.enterRecovery policy.id)
  | .continue | .restart => none

/-- An operation on a service leaves its policy alone, keeps the bookkeeping, and leaves the waiting
system action alone or puts the one of its policy in its place. -/
structure Keeps (before after : ServiceCell) : Prop where
  policy : after.record.policy = before.record.policy
  sound : Sound before.record → Sound after.record
  pending : after.pendingSystemAction = before.pendingSystemAction ∨
    after.pendingSystemAction = before.record.policy.systemAction

theorem Keeps.refl (cell : ServiceCell) : Keeps cell cell := ⟨rfl, id, .inl rfl⟩

/-- A record with no stop under way is sound when its restarts are within the limit. -/
theorem sound_of_not_stopping {record : ServiceRecord}
    (hrestarts : record.restarts ≤ record.policy.restartLimit) (hafter : record.afterStop = none)
    (hstate : record.state.isStopping = false) : Sound record :=
  ⟨hrestarts, by simp [hafter, hstate]⟩

theorem Sound.afterStop_eq_none {record : ServiceRecord} (h : Sound record)
    (hstate : record.state.isStopping = false) : record.afterStop = none := by
  by_contra hne
  have := h.afterStop.mp hne
  rw [hstate] at this
  cases this

namespace ServiceCell

variable {cell : ServiceCell} {operation : CellAct} {now process : ℕ}

@[simp] theorem wp_get {Q : ServiceRecord → ServiceCell → Prop}
    {R : SupervisorError → ServiceCell → Prop} : get.wp Q R cell ↔ Q cell.record cell := Iff.rfl

/-- Every way an operation on a service ends keeps the bookkeeping. -/
abbrev Kept (operation : CellAct) (cell : ServiceCell) : Prop :=
  operation.always (Keeps cell) cell

/-- What keeps the bookkeeping may follow what does. -/
theorem Kept.after {middle : ServiceCell} (h : Kept operation middle)
    (hpolicy : middle.record.policy = cell.record.policy)
    (hsound : Sound cell.record → Sound middle.record)
    (hpending : middle.pendingSystemAction = cell.pendingSystemAction) :
    operation.always (Keeps cell) middle := by
  have htrans : ∀ final, Keeps middle final → Keeps cell final := fun final hfinal =>
    ⟨hfinal.policy.trans hpolicy, fun h => hfinal.sound (hsound h),
      hpending ▸ hpolicy ▸ hfinal.pending⟩
  exact Act.always_mono h htrans

/-- A failure outside a stop keeps the bookkeeping. -/
theorem kept_applyFailure {reason : FailureReason}
    (hstate : cell.record.state.isStopping = false) : Kept (applyFailure reason now) cell := by
  have hsound : Sound cell.record → Sound { cell.record with state := .failed reason } :=
    fun h => sound_of_not_stopping h.restarts (h.afterStop_eq_none hstate) rfl
  simp only [Kept, applyFailure, wp_rules, wp_get]
  split
  · rw [Act.wp_ite]
    refine ⟨fun hlimit => ?_, fun _ => ⟨rfl, hsound, .inl rfl⟩⟩
    simp only [scheduleRestart, set, wp_rules, wp_get, ok_rules]
    refine ⟨?_, fun _ => .refl cell⟩
    rintro _ ⟨-, rfl⟩
    exact ⟨rfl, fun h => sound_of_not_stopping hlimit (h.afterStop_eq_none hstate) rfl, .inl rfl⟩
  · exact ⟨rfl, hsound, .inl rfl⟩
  next haction =>
    refine ⟨rfl, hsound, .inr ?_⟩
    rw [ServicePolicy.systemAction, haction]
  next haction =>
    refine ⟨rfl, hsound, .inr ?_⟩
    rw [ServicePolicy.systemAction, haction]

theorem kept_requestStart : Kept requestStart cell := by
  simp only [Kept, requestStart, set, wp_rules, wp_get, Act.wp_ite]
  refine ⟨fun hfailed => ⟨rfl, fun h => ?_, .inl rfl⟩,
    fun _ => ⟨rfl, fun h => ⟨h.restarts, h.afterStop⟩, .inl rfl⟩⟩
  refine sound_of_not_stopping (Nat.zero_le _) (h.afterStop_eq_none ?_) rfl
  cases hstate : cell.record.state with
  | failed reason => rfl
  | _ => simp [hstate, ServiceState.isFailed] at hfailed

theorem kept_requestStop : Kept requestStop cell :=
  ⟨rfl, fun h => ⟨h.restarts, h.afterStop⟩, .inl rfl⟩

theorem kept_requestRestart : Kept requestRestart cell := by
  simp only [Kept, requestRestart, set, wp_rules, wp_get, Act.wp_ite]
  refine ⟨fun hdown => ⟨rfl, fun h => ?_, .inl rfl⟩,
    fun _ => ⟨rfl, fun h => ⟨h.restarts, h.afterStop⟩, .inl rfl⟩⟩
  refine sound_of_not_stopping h.restarts (h.afterStop_eq_none ?_) rfl
  cases hstate : cell.record.state with
  | stopped => rfl
  | failed reason => rfl
  | _ => simp [hstate, ServiceState.isFailed] at hdown

theorem kept_launched : Kept (launched process now) cell := by
  simp only [Kept, launched, set, wp_rules, wp_get, not_or, not_not]
  refine ⟨fun _ => .refl cell, fun hguard => ⟨rfl, fun h => ?_, .inl rfl⟩⟩
  exact sound_of_not_stopping h.restarts (h.afterStop_eq_none (by rw [hguard.2]; rfl)) rfl

theorem kept_launchFailed : Kept (launchFailed now) cell := by
  simp only [Kept, launchFailed, wp_rules, wp_get, not_or, not_not]
  exact ⟨fun _ => .refl cell, fun hguard => kept_applyFailure (by rw [hguard.2]; rfl)⟩

theorem kept_ready : Kept (ready process) cell := by
  simp only [Kept, ready, wp_rules, wp_get]
  split
  next hstate =>
    simp only [set, wp_rules]
    refine ⟨fun _ => .refl cell, fun _ => ⟨rfl, fun h => ?_, .inl rfl⟩⟩
    exact sound_of_not_stopping h.restarts (h.afterStop_eq_none (by rw [hstate]; rfl)) rfl
  · exact .refl cell

theorem kept_stopped : Kept (stopped process now) cell := by
  simp only [Kept, stopped, wp_rules, wp_get]
  split
  next hstate =>
    simp only [set, wp_rules]
    refine ⟨fun _ => .refl cell, fun _ => ⟨fun after _ => ?_, fun hnone =>
      ⟨rfl, fun h => ?_, .inl rfl⟩⟩⟩
    · -- the record is stopped by now, and what follows works on that record
      have hstopped : Sound cell.record →
          Sound { cell.record with afterStop := none, state := .stopped } :=
        fun h => sound_of_not_stopping h.restarts rfl rfl
      cases after with
      | failure reason => exact (kept_applyFailure rfl).after rfl hstopped rfl
      | _ => exact ⟨rfl, hstopped, .inl rfl⟩
    · exact absurd hnone (h.afterStop.mpr (by rw [hstate]; rfl))
  · exact .refl cell

theorem kept_exited {status : Option ℕ} : Kept (exited process status now) cell := by
  simp only [Kept, exited, set, wp_rules, wp_get, not_or]
  refine ⟨fun _ => .refl cell, fun hguard => (kept_applyFailure rfl).after rfl (fun h => ?_) rfl⟩
  exact sound_of_not_stopping h.restarts (h.afterStop_eq_none (by simpa using hguard.2)) rfl

theorem kept_appendLog {bytes : List UInt8} : Kept (appendLog bytes) cell :=
  ⟨rfl, fun h => ⟨h.restarts, h.afterStop⟩, .inl rfl⟩

/-- Every notification keeps the bookkeeping. -/
theorem kept_notification {call : Call} {serviceId : ℕ}
    (h : call.notification = some (serviceId, operation)) : Keeps cell (operation cell).2 := by
  refine Act.snd_of_wp ?_
  cases call <;> cases h
  · exact kept_requestStart
  · exact kept_requestStop
  · exact kept_requestRestart
  · exact kept_launched
  · exact kept_launchFailed
  · exact kept_ready
  · exact kept_stopped
  · exact kept_exited
  · exact kept_appendLog

end ServiceCell

/-! ## One record at a time -/

section

variable {supervisor : Supervisor} {now serviceId logCapacity : ℕ}
  {records records' : List ServiceRecord} {action : SupervisorAction}
  {record record' : ServiceRecord} {pending : Option SupervisorAction} {recovery : Bool}
  {policies : List ServicePolicy}

/-- What a notification does to the supervisor: nothing, or its operation on the record of its
service. -/
theorem onRecord_cases (supervisor : Supervisor) (serviceId : ℕ) (operation : CellAct) :
    (onRecord serviceId operation supervisor).2 = supervisor ∨
      ∃ before record after, supervisor.records = before ++ record :: after ∧
        (onRecord serviceId operation supervisor).2 =
          { records := before ++
              (operation ⟨record, supervisor.pendingSystemAction⟩).2.record :: after
            pendingSystemAction :=
              (operation ⟨record, supervisor.pendingSystemAction⟩).2.pendingSystemAction } := by
  unfold onRecord
  split
  · exact .inl rfl
  next index _ =>
    split
    · exact .inl rfl
    next record hrecord =>
      obtain ⟨hindex, hget⟩ := List.getElem?_eq_some_iff.mp hrecord
      refine .inr ⟨supervisor.records.take index, record, supervisor.records.drop (index + 1),
        ?_, ?_⟩
      · rw [← hget, List.getElem_cons_drop, List.take_append_drop]
      · simp only [List.set_eq_take_append_cons_drop, hindex, if_true]

/-- A call is `next_action` or a notification. -/
theorem perform_cases (supervisor : Supervisor) (call : Call) :
    (∃ now, call = .nextAction now) ∨
      ∃ serviceId operation, call.notification = some (serviceId, operation) ∧
        supervisor.perform call = (none, (onRecord serviceId operation supervisor).2) := by
  cases call with
  | nextAction now => exact .inl ⟨now, rfl⟩
  | _ => exact .inr ⟨_, _, rfl, rfl⟩

/-- The loop of `next_action` returns nothing when no record calls for an action. -/
theorem firstAction_eq_none : supervisor.firstAction now records = none ↔
      ∀ record ∈ records, record.act now (supervisor.dependenciesReady record) = none := by
  induction records with
  | nil => simp [firstAction]
  | cons record records ih =>
    rw [firstAction]
    split
    next action record' hact => simp [hact]
    next hact => simp [hact, ih]

/-- The loop of `next_action` returns the action of the first record that calls for one. -/
theorem firstAction_eq_some (h : supervisor.firstAction now records = some (action, records')) :
    ∃ before record record' after, records = before ++ record :: after ∧
      records' = before ++ record' :: after ∧
      (∀ earlier ∈ before, earlier.act now (supervisor.dependenciesReady earlier) = none) ∧
      record.act now (supervisor.dependenciesReady record) = some (action, record') := by
  induction records generalizing records' with
  | nil => cases h
  | cons record records ih =>
    rw [firstAction] at h
    split at h
    next action' record' hact =>
      cases h
      exact ⟨[], record, record', records, rfl, rfl, by simp, hact⟩
    next hact =>
      rw [Option.map_eq_some_iff] at h
      obtain ⟨⟨action', rest⟩, hrest, hpair⟩ := h
      cases hpair
      obtain ⟨before, found, found', after, rfl, rfl, hbefore, hfound⟩ := ih hrest
      refine ⟨record :: before, found, found', after, rfl, rfl, ?_, hfound⟩
      exact List.forall_mem_cons.mpr ⟨hact, hbefore⟩

/-- What an action does to its record. -/
theorem act_keeps {ready : Bool} (h : record.act now ready = some (action, record')) :
    record'.policy = record.policy ∧ (Sound record → Sound record') := by
  have hstop : ∀ (base : ServiceRecord) (process : ℕ) (reason : StopReason) (after : AfterStop),
      base.policy = record.policy → base.restarts = record.restarts →
      (base.beginStop process now reason after).2.policy = record.policy ∧
        (Sound record → Sound (base.beginStop process now reason after).2) := by
    intro base process reason after hpolicy hrestarts
    refine ⟨hpolicy, fun hsound => ⟨?_, by simp [beginStop, ServiceState.isStopping]⟩⟩
    show base.restarts ≤ base.policy.restartLimit
    rw [hpolicy, hrestarts]
    exact hsound.restarts
  cases hstate : record.state with
  | stopped | stopping process deadline reason =>
    simp only [act, hstate, Option.ite_none_right_eq_some, Option.some.injEq, Prod.mk.injEq] at h
    obtain ⟨-, -, rfl⟩ := h
    exact ⟨rfl, id⟩
  | starting process health lifetime | ready process lifetime =>
    simp only [act, hstate] at h
    repeat' split at h
    all_goals first
      | (obtain rfl := congrArg Prod.snd (Option.some.inj h)
         exact hstop _ _ _ _ rfl rfl)
      | cases h
  | backoff deadline reason =>
    simp only [act, hstate, Option.ite_none_right_eq_some, Option.some.injEq, Prod.mk.injEq] at h
    obtain ⟨-, -, rfl⟩ := h
    refine ⟨rfl, fun hsound => ?_⟩
    exact sound_of_not_stopping hsound.restarts (hsound.afterStop_eq_none (by rw [hstate]; rfl)) rfl
  | failed reason => simp [act, hstate] at h

/-! ## Runs -/

/-- What holds of the records in every state of a run. -/
structure Tidy (supervisor : Supervisor) : Prop where
  ordered : supervisor.records.Pairwise fun first second => first.policy.id < second.policy.id
  sound : ∀ record ∈ supervisor.records, Sound record
  pending : ∀ serviceId, supervisor.pendingSystemAction ≠ some (.launch serviceId)

/-- No policy makes the whole system launch a service. -/
theorem systemAction_ne_launch {policy : ServicePolicy} :
    policy.systemAction ≠ some (.launch serviceId) := by
  unfold ServicePolicy.systemAction
  split <;> simp

section

variable (h : Tidy supervisor)
include h

/-- One record is exchanged for another with the same policy. -/
theorem Tidy.exchange {before after : List ServiceRecord}
    (hrecords : supervisor.records = before ++ record :: after)
    (hpolicy : record'.policy = record.policy) (hsound : Sound record → Sound record')
    (hpending : ∀ serviceId, pending ≠ some (.launch serviceId)) :
    Tidy ⟨before ++ record' :: after, pending⟩ := by
  obtain ⟨hordered, hall, -⟩ := h
  rw [hrecords] at hordered hall
  refine ⟨?_, fun r hr => ?_, hpending⟩
  · simp only [List.pairwise_append, List.pairwise_cons, List.forall_mem_cons] at hordered ⊢
    rw [hpolicy]
    exact hordered
  · rcases List.mem_append.mp hr with hr | hr
    · exact hall r (List.mem_append_left _ hr)
    · rcases List.mem_cons.mp hr with rfl | hr
      · exact hsound (hall record (List.mem_append_right _ List.mem_cons_self))
      · exact hall r (List.mem_append_right _ (List.mem_cons_of_mem _ hr))

/-- A notification writes one record. -/
theorem Tidy.notify {call : Call} {operation : CellAct}
    (hcall : call.notification = some (serviceId, operation)) :
    Tidy (onRecord serviceId operation supervisor).2 := by
  rcases onRecord_cases supervisor serviceId operation with
    hsame | ⟨before, record, after, hrecords, hnew⟩
  · rwa [hsame]
  · rw [hnew]
    have hkept : Keeps ⟨record, supervisor.pendingSystemAction⟩ _ :=
      ServiceCell.kept_notification hcall
    refine h.exchange hrecords hkept.policy hkept.sound fun id => ?_
    rcases hkept.pending with hpending | hpending
    · rw [hpending]
      exact h.pending id
    · rw [hpending]
      exact systemAction_ne_launch

theorem Tidy.nextAction (now : ℕ) : Tidy (supervisor.nextAction now).2 := by
  unfold Supervisor.nextAction
  split
  · exact ⟨h.ordered, h.sound, by simp⟩
  · split
    next action records hfirst =>
      obtain ⟨before, record, record', after, hrecords, rfl, -, hact⟩ := firstAction_eq_some hfirst
      obtain ⟨hpolicy, hsound⟩ := act_keeps hact
      exact h.exchange hrecords hpolicy hsound h.pending
    · exact h

/-- Every call keeps the records tidy. -/
theorem Tidy.perform (call : Call) : Tidy (supervisor.perform call).2 := by
  rcases perform_cases supervisor call with ⟨now, rfl⟩ | ⟨serviceId, operation, hcall, hperform⟩
  · exact h.nextAction now
  · rw [hperform]
    exact h.notify hcall

/-- So does every run. -/
theorem Tidy.run (calls : List Call) : Tidy (supervisor.run calls) := by
  induction calls generalizing supervisor with
  | nil => exact h
  | cons call calls ih => exact ih (h.perform call)

end

theorem tidy_addPolicies (h : addPolicies recovery logCapacity records policies = .ok records')
    (htidy : Tidy ⟨records, pending⟩) : Tidy ⟨records', pending⟩ := by
  induction policies generalizing records with
  | nil => rwa [← Except.ok.inj h]
  | cons policy policies ih =>
    simp only [addPolicies, ok_rules, not_or] at h
    obtain ⟨_, ⟨-, hlast, -⟩, log, -, h⟩ := h
    refine ih h ⟨?_, fun record hrecord => ?_, htidy.pending⟩
    · -- identities grow along the list, so it is enough to look at the last record
      have hordered := htidy.ordered
      rw [← List.isChain_iff_pairwise] at hordered ⊢
      refine List.isChain_append.mpr ⟨hordered, List.isChain_singleton _, ?_⟩
      intro last hfirst second hsecond
      rw [← Option.some.inj hsecond]
      exact Nat.lt_of_not_le fun hle => hlast ⟨last, hfirst, hle⟩
    · rcases List.mem_append.mp hrecord with hrecord | hrecord
      · exact htidy.sound record hrecord
      · rw [List.mem_singleton.mp hrecord]
        exact sound_of_not_stopping (Nat.zero_le _) rfl rfl

theorem tidy_new (h : new policies recovery logCapacity = .ok supervisor) : Tidy supervisor := by
  simp only [new, ok_rules] at h
  obtain ⟨_, -, records, hrecords, h⟩ := h
  cases h
  exact tidy_addPolicies hrecords ⟨.nil, by simp, by simp⟩

/-- The records are tidy in every state that is reached. -/
theorem Reached.tidy (h : supervisor.Reached) : Tidy supervisor := by
  obtain ⟨policies, recovery, logCapacity, start, calls, hnew, rfl⟩ := h
  exact (tidy_new hnew).run calls

/-- In a tidy supervisor a record is found by its identity. -/
theorem Tidy.record_eq (h : Tidy supervisor)
    (hrecord : record ∈ supervisor.records) : supervisor.record record.policy.id = .ok record := by
  obtain ⟨before, after, hrecords⟩ := List.append_of_mem hrecord
  have hordered := h.ordered
  rw [hrecords] at hordered
  rw [Supervisor.record, okOr_eq_ok, hrecords, List.find?_eq_some_iff_append]
  refine ⟨by simp, before, after, rfl, fun earlier hearlier => ?_⟩
  have hlt := (List.pairwise_append.mp hordered).2.2 earlier hearlier record List.mem_cons_self
  simp only [Bool.not_eq_true', decide_eq_false_iff_not]
  omega

/-! ## Quiescence -/

/-- Every deadline of a state. -/
def ServiceState.deadlines : ServiceState → List ℕ
  | starting _ healthDeadline lifetimeDeadline =>
    healthDeadline.toList ++ lifetimeDeadline.toList
  | ready _ lifetimeDeadline => lifetimeDeadline.toList
  | backoff deadline _ | stopping _ deadline _ => [deadline]
  | stopped | failed _ => []

/-- A process of the service is starting or ready. -/
def ServiceState.isLive : ServiceState → Bool
  | starting _ _ _ | ready _ _ => true
  | _ => false

/-- There is nothing to do for a service at `now`. -/
structure Settled (supervisor : Supervisor) (now : ℕ) (record : ServiceRecord) : Prop where
  stopped : record.state = .stopped →
    ¬ (record.desired = .up ∧ supervisor.dependenciesReady record = true)
  live : record.state.isLive = true → record.desired = .up ∧ record.restartPending = false ∧
    supervisor.dependenciesReady record = true
  deadlines : ∀ deadline ∈ record.state.deadlines, now < deadline

theorem expired_eq_false {deadline : Option ℕ} :
    expired now deadline = false ↔ ∀ d ∈ deadline.toList, now < d := by
  cases deadline <;> simp [expired]

theorem desired_ne_down {desired : DesiredState} : desired ≠ .down ↔ desired = .up := by
  cases desired <;> simp

/-- A record calls for no action exactly when it is settled. -/
theorem act_eq_none : record.act now (supervisor.dependenciesReady record) = none ↔
      Settled supervisor now record := by
  cases hstate : record.state with
  | stopped =>
    simp only [act, hstate, ite_eq_right_iff, reduceCtorEq, imp_false]
    refine ⟨fun h => ⟨fun _ => h, ?_, ?_⟩, fun h => h.stopped hstate⟩
    · simp [hstate, ServiceState.isLive]
    · simp [hstate, ServiceState.deadlines]
  | starting process health lifetime =>
    constructor
    · intro h
      simp only [act, hstate] at h
      split_ifs at h with hdown hrestart hready hhealth hlifetime
      rw [Bool.not_eq_true, expired_eq_false] at hhealth hlifetime
      refine ⟨by simp [hstate], fun _ => ⟨desired_ne_down.mp hdown, ?_, ?_⟩, ?_⟩
      · simpa using hrestart
      · simpa using hready
      · rw [hstate]
        intro d hd
        rcases List.mem_append.mp hd with hd | hd
        · exact hhealth d hd
        · exact hlifetime d hd
    · rintro ⟨-, hlive, hdeadlines⟩
      obtain ⟨hup, hrestart, hready⟩ := hlive (by rw [hstate]; rfl)
      rw [hstate] at hdeadlines
      have hhealth : expired now health = false :=
        expired_eq_false.mpr fun d hd => hdeadlines d (List.mem_append_left _ hd)
      have hlifetime : expired now lifetime = false :=
        expired_eq_false.mpr fun d hd => hdeadlines d (List.mem_append_right _ hd)
      simp [act, hstate, hup, hrestart, hready, hhealth, hlifetime]
  | ready process lifetime =>
    constructor
    · intro h
      simp only [act, hstate] at h
      split_ifs at h with hdown hrestart hready hlifetime
      rw [Bool.not_eq_true, expired_eq_false] at hlifetime
      refine ⟨by simp [hstate], fun _ => ⟨desired_ne_down.mp hdown, ?_, ?_⟩, ?_⟩
      · simpa using hrestart
      · simpa using hready
      · rw [hstate]
        exact hlifetime
    · rintro ⟨-, hlive, hdeadlines⟩
      obtain ⟨hup, hrestart, hready⟩ := hlive (by rw [hstate]; rfl)
      rw [hstate] at hdeadlines
      have hlifetime : expired now lifetime = false :=
        expired_eq_false.mpr hdeadlines
      simp [act, hstate, hup, hrestart, hready, hlifetime]
  | backoff deadline reason | stopping process deadline reason =>
    simp only [act, hstate, ite_eq_right_iff, reduceCtorEq, imp_false, Nat.not_le]
    refine ⟨fun h => ⟨by simp [hstate], by simp [hstate, ServiceState.isLive], ?_⟩, fun h => ?_⟩
    · simpa [hstate, ServiceState.deadlines] using h
    · exact h.deadlines deadline (by rw [hstate]; exact List.mem_singleton_self _)
  | failed reason =>
    simp only [act, hstate, true_iff]
    exact ⟨by simp [hstate], by simp [hstate, ServiceState.isLive],
      by simp [hstate, ServiceState.deadlines]⟩

/-- `next_action` returns nothing exactly when no system action waits and every record is settled. -/
theorem nextAction_eq_none :
    (supervisor.nextAction now).1 = none ↔ supervisor.pendingSystemAction = none ∧
      ∀ record ∈ supervisor.records, Settled supervisor now record := by
  simp only [← act_eq_none, ← firstAction_eq_none]
  unfold Supervisor.nextAction
  split
  next action hpending => simp [hpending]
  next hpending =>
    split
    next hfirst => simp [hpending, hfirst]
    next hfirst => simp [hpending, hfirst]

/-- A `next_action` that returns nothing changes nothing. -/
theorem nextAction_of_none (h : (supervisor.nextAction now).1 = none) :
    supervisor.nextAction now = (none, supervisor) := by
  unfold Supervisor.nextAction at h ⊢
  split
  next hpending => simp [hpending] at h
  next hpending =>
    split
    next hfirst => simp [hpending, hfirst] at h
    · rfl

/-- The deadline a record contributes is the first of its deadlines. -/
theorem deadline_le {d : ℕ} (h : d ∈ record.state.deadlines) :
    ∃ first ∈ record.state.deadlines, record.deadline = some first ∧ first ≤ d := by
  cases hstate : record.state with
  | starting process health lifetime =>
    rw [hstate] at h
    obtain _ | health := health <;> obtain _ | lifetime := lifetime
    · cases h
    · exact ⟨lifetime, by simp [ServiceState.deadlines], by simp [deadline, hstate,
        earliest], by simp_all [ServiceState.deadlines]⟩
    · exact ⟨health, by simp [ServiceState.deadlines], by simp [deadline, hstate,
        earliest], by simp_all [ServiceState.deadlines]⟩
    · refine ⟨min health lifetime, ?_, by simp [deadline, hstate, earliest], ?_⟩
      · rcases Nat.le_total health lifetime with hle | hle
        · simp [ServiceState.deadlines, Nat.min_eq_left hle]
        · simp [ServiceState.deadlines, Nat.min_eq_right hle]
      · simp only [ServiceState.deadlines, Option.toList_some, List.cons_append, List.nil_append,
          List.mem_cons, List.not_mem_nil, or_false] at h
        omega
  | ready process lifetime =>
    rw [hstate] at h
    have hsome : lifetime = some d := by simpa [ServiceState.deadlines] using h
    exact ⟨d, h, by simp [deadline, hstate, hsome], le_rfl⟩
  | backoff deadline reason | stopping process deadline reason =>
    rw [hstate] at h
    obtain rfl := List.mem_singleton.mp h
    exact ⟨d, h, by simp [deadline, hstate], le_rfl⟩
  | stopped | failed reason => simp [hstate, ServiceState.deadlines] at h

/-- A settled record stays settled until the next deadline. -/
theorem Settled.until {later : ℕ}
    (h : Settled supervisor now record) (hrecord : record ∈ supervisor.records)
    (hlater : ∀ d, supervisor.nextDeadline now = some d → later < d) :
    Settled supervisor later record := by
  refine ⟨h.stopped, h.live, fun d hd => ?_⟩
  obtain ⟨first, hfirst, hdeadline, hle⟩ := deadline_le hd
  have hmem : first ∈ (supervisor.records.filterMap deadline).filter
      fun deadline => now < deadline := by
    refine List.mem_filter.mpr ⟨List.mem_filterMap.mpr ⟨record, hrecord, hdeadline⟩, ?_⟩
    simpa using h.deadlines first hfirst
  cases hmin : supervisor.nextDeadline now with
  | none =>
    rw [Supervisor.nextDeadline, List.min?_eq_none_iff] at hmin
    rw [hmin] at hmem
    cases hmem
  | some least =>
    have hleast : least ≤ first := (List.min?_eq_some_iff.mp hmin).2 first hmem
    exact Nat.lt_of_lt_of_le (hlater least hmin) (Nat.le_trans hleast hle)

/-- Quiescence and timers. In every state of a run the bookkeeping of every service is right. When
`next_action` returns nothing, every service is settled, nothing has changed, and `next_action` goes
on returning nothing until the next deadline. -/
theorem quiescent_until_deadline (h : supervisor.Reached) :
    (∀ record ∈ supervisor.records, record.restarts ≤ record.policy.restartLimit ∧
      (record.afterStop ≠ none ↔ record.state.isStopping)) ∧
    ∀ now, (supervisor.nextAction now).1 = none →
      (∀ record ∈ supervisor.records, Settled supervisor now record) ∧
      (supervisor.nextAction now).2 = supervisor ∧
      ∀ later, now ≤ later → (∀ d, supervisor.nextDeadline now = some d → later < d) →
        (supervisor.nextAction later).1 = none := by
  refine ⟨fun record hrecord => ?_, fun now hnone => ?_⟩
  · have hsound := h.tidy.sound record hrecord
    exact ⟨hsound.restarts, hsound.afterStop⟩
  · obtain ⟨hpending, hsettled⟩ := nextAction_eq_none.mp hnone
    refine ⟨hsettled, by rw [nextAction_of_none hnone], fun later _ hlater => ?_⟩
    exact nextAction_eq_none.mpr
      ⟨hpending, fun record hrecord => (hsettled record hrecord).until hrecord hlater⟩

end

/-- A service that may be restarted once. -/
def sampleService : ServicePolicy :=
  { id := 1, mode := .bootRequired, failureAction := .restart, restartLimit := 1,
    healthTimeoutMs := 100, lifetimeLimitMs := 0, dependencies := [] }

/-- The sample service after a failed launch. -/
def sampleBackoff : Supervisor :=
  ⟨[⟨sampleService, .up, .backoff 1000 .launchFailed, 1, false, none, ⟨[], 16, 0⟩⟩], none⟩

theorem sampleBackoff_reached : sampleBackoff.Reached :=
  ⟨[sampleService], false, 16, _, [.launchFailed 1 0], rfl, by decide⟩

/-- The sample service waits for its restart. -/
theorem quiescent_until_deadline_backoff : sampleBackoff.Reached ∧
    (sampleBackoff.nextAction 0).1 = none ∧ sampleBackoff.nextDeadline 0 = some 1000 ∧
    (sampleBackoff.nextAction 999).1 = none := by
  have hnone : (sampleBackoff.nextAction 0).1 = none := by decide
  have hdeadline : sampleBackoff.nextDeadline 0 = some 1000 := by decide
  refine ⟨sampleBackoff_reached, hnone, hdeadline, ?_⟩
  refine ((quiescent_until_deadline sampleBackoff_reached).2 0 hnone).2.2 999 (by decide) ?_
  intro d hd
  rw [← Option.mem_unique hdeadline hd]
  decide

end Troe.Supervisor
