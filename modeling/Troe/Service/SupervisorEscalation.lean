import Troe.Service.SupervisorTheorems

/-!
# Launches and escalation

Two promises of the supervisor hold only in part. A launch after a back-off looks neither at the
desired state of the service nor at its dependencies. And a failure that asks for an action on the
whole system displaces one that still waits, so that action is never handed out.
-/

namespace Troe.Supervisor

open Lib
open ServiceRecord (act beginStop)

section

variable {supervisor : Supervisor}

/-! ## Launches -/

/-- A service that may be launched: it is desired up and its dependencies are ready. -/
def Eligible (supervisor : Supervisor) (serviceId : ℕ) : Prop :=
  ∃ record, supervisor.record serviceId = .ok record ∧ record.desired = .up ∧
    supervisor.dependenciesReady record = true

/-- The first service that is not settled may be launched, if its back-off has expired. -/
def BackoffEligible (supervisor : Supervisor) (now : ℕ) : Prop :=
  supervisor.pendingSystemAction = none →
    ∀ before record after, supervisor.records = before ++ record :: after →
      (∀ earlier ∈ before, Settled supervisor now earlier) →
      ∀ deadline reason, record.state = .backoff deadline reason → deadline ≤ now →
        record.desired = .up ∧ supervisor.dependenciesReady record = true

/-- A record is launched from rest, when it is eligible, or when its back-off has expired. -/
theorem act_launch {record record' : ServiceRecord} {now serviceId : ℕ} {ready : Bool}
    (h : record.act now ready = some (.launch serviceId, record')) :
    serviceId = record.policy.id ∧ ((record.desired = .up ∧ ready = true) ∨
      ∃ deadline reason, record.state = .backoff deadline reason ∧ deadline ≤ now) := by
  cases hstate : record.state with
  | stopped =>
    simp only [act, hstate, Option.ite_none_right_eq_some, Option.some.injEq,
      Prod.mk.injEq, SupervisorAction.launch.injEq] at h
    exact ⟨h.2.1.symm, .inl h.1⟩
  | backoff deadline reason =>
    simp only [act, hstate, Option.ite_none_right_eq_some, Option.some.injEq,
      Prod.mk.injEq, SupervisorAction.launch.injEq] at h
    exact ⟨h.2.1.symm, .inr ⟨deadline, reason, rfl, h.1⟩⟩
  | starting process health lifetime | ready process lifetime =>
    simp only [act, hstate, beginStop] at h
    split_ifs at h <;> cases h
  | stopping process deadline reason => simp [act, hstate] at h
  | failed reason => simp [act, hstate] at h

/-- The loop of `next_action` passes over settled records. -/
theorem firstAction_append {now : ℕ} {before : List ServiceRecord} (rest : List ServiceRecord)
    (h : ∀ earlier ∈ before, Settled supervisor now earlier) :
    supervisor.firstAction now (before ++ rest) =
      (supervisor.firstAction now rest).map fun found => (found.1, before ++ found.2) := by
  induction before with
  | nil => simp
  | cons record before ih =>
    rw [List.forall_mem_cons] at h
    rw [List.cons_append, firstAction, act_eq_none.mpr h.1, ih h.2]
    simp [Function.comp_def]

/-- A back-off of the first record that is not settled is launched when it has expired. -/
theorem nextAction_backoff {now deadline : ℕ} {before after : List ServiceRecord}
    {record : ServiceRecord} {reason : FailureReason}
    (hpending : supervisor.pendingSystemAction = none)
    (hrecords : supervisor.records = before ++ record :: after)
    (hbefore : ∀ earlier ∈ before, Settled supervisor now earlier)
    (hstate : record.state = .backoff deadline reason) (hexpired : deadline ≤ now) :
    (supervisor.nextAction now).1 = some (.launch record.policy.id) := by
  have hact : record.act now (supervisor.dependenciesReady record)
      = some (.launch record.policy.id, { record with state := .stopped }) := by
    simp [act, hstate, hexpired]
  have hfirst := firstAction_append (record :: after) hbefore
  rw [← hrecords, firstAction, hact] at hfirst
  simp [Supervisor.nextAction, hpending, hfirst]

/-- `next_action` launches only eligible services exactly when the first service that is not settled
is not an ineligible one whose back-off has expired. -/
theorem launch_eligible_iff (h : supervisor.Reached) (now : ℕ) :
    (∀ serviceId, (supervisor.nextAction now).1 = some (.launch serviceId) →
      Eligible supervisor serviceId) ↔ BackoffEligible supervisor now := by
  constructor
  · intro hlaunch hpending before record after hrecords hbefore deadline reason hstate hexpired
    have hmem : record ∈ supervisor.records := by simp [hrecords]
    obtain ⟨found, hfound, hup, hready⟩ := hlaunch record.policy.id
      (nextAction_backoff hpending hrecords hbefore hstate hexpired)
    rw [h.tidy.record_eq hmem] at hfound
    rw [Except.ok.inj hfound]
    exact ⟨hup, hready⟩
  · intro hbackoff serviceId hlaunch
    unfold Supervisor.nextAction at hlaunch
    split at hlaunch
    next action hpending => exact absurd (hpending.trans hlaunch) (h.tidy.pending serviceId)
    next hpending =>
      split at hlaunch
      next action records hfirst =>
        obtain ⟨before, record, record', after, hrecords, -, hbefore, hact⟩ :=
          firstAction_eq_some hfirst
        cases hlaunch
        obtain ⟨rfl, heligible⟩ := act_launch hact
        have hmem : record ∈ supervisor.records := by simp [hrecords]
        refine ⟨record, h.tidy.record_eq hmem, ?_⟩
        rcases heligible with heligible | ⟨deadline, reason, hstate, hexpired⟩
        · exact heligible
        · exact hbackoff hpending before record after hrecords
            (fun earlier hearlier => act_eq_none.mp (hbefore earlier hearlier)) deadline reason
            hstate hexpired
      · cases hlaunch

end

/-- The sample service is still desired up when its back-off expires. -/
theorem launch_eligible_sample : sampleBackoff.Reached ∧
    (sampleBackoff.nextAction 1000).1 = some (.launch 1) ∧ Eligible sampleBackoff 1 := by
  refine ⟨sampleBackoff_reached, by decide,
    (launch_eligible_iff sampleBackoff_reached 1000).mpr ?_ 1 (by decide)⟩
  intro _ before record after hrecords _ _ _ _ _
  have hmem : record ∈ before ++ record :: after := by simp
  rw [← hrecords, sampleBackoff, List.mem_singleton] at hmem
  rw [hmem]
  exact ⟨rfl, by decide⟩

/-- The sample service fails to launch, is asked to stay down, and is launched after its back-off. -/
theorem launch_while_down : ∃ supervisor : Supervisor, supervisor.Reached ∧
    (supervisor.nextAction 1000).1 = some (.launch 1) ∧ ¬ Eligible supervisor 1 := by
  refine ⟨⟨[⟨sampleService, .down, .backoff 1000 .launchFailed, 1, false, none, ⟨[], 16, 0⟩⟩], none⟩,
    ⟨[sampleService], false, 16, _, [.launchFailed 1 0, .requestStop 1], rfl, by decide⟩, by decide,
    ?_⟩
  rintro ⟨record, hrecord, hup, -⟩
  cases hrecord
  cases hup

/-! ## Escalation -/

/-- An operation that looks only at the record, and leaves the waiting system action alone or puts
another one in its place. -/
def Slotted {α : Type} (x : Act ServiceCell SupervisorError α) : Prop :=
  ∀ record pending, x ⟨record, pending⟩ = ((x ⟨record, none⟩).1,
    ⟨(x ⟨record, none⟩).2.record, (x ⟨record, none⟩).2.pendingSystemAction.or pending⟩)

section

variable {α β : Type}

theorem slotted_pure {a : α} : Slotted (pure a : Act ServiceCell SupervisorError α) :=
  fun _ _ => rfl

variable {e : SupervisorError}

theorem slotted_fail : Slotted (Act.fail e : Act ServiceCell _ α) :=
  fun _ _ => rfl

theorem slotted_get : Slotted ServiceCell.get := fun _ _ => rfl

theorem slotted_set {f : ServiceRecord → ServiceRecord} : Slotted (ServiceCell.set f) :=
  fun _ _ => rfl

theorem Slotted.bind {x : Act ServiceCell SupervisorError α}
    {f : α → Act ServiceCell SupervisorError β} (hx : Slotted x) (hf : ∀ a, Slotted (f a)) :
    Slotted (x >>= f) := by
  intro record pending
  show Act.bind x f ⟨record, pending⟩ = ((Act.bind x f ⟨record, none⟩).1,
    ⟨(Act.bind x f ⟨record, none⟩).2.record,
      (Act.bind x f ⟨record, none⟩).2.pendingSystemAction.or pending⟩)
  unfold Act.bind
  rw [hx record pending]
  rcases x ⟨record, none⟩ with ⟨e | a, record', pending'⟩
  · rfl
  · dsimp only
    rw [hf a record' (pending'.or pending), hf a record' pending', Option.or_assoc]

theorem slotted_reject {c : Prop} [Decidable c] :
    Slotted (Act.reject c e : Act ServiceCell _ Unit) := by
  unfold Act.reject
  split
  · exact slotted_fail
  · exact slotted_pure

theorem slotted_okOr {x : Option α} : Slotted (Act.okOr x e : Act ServiceCell _ α) := by
  cases x with
  | none => exact slotted_fail
  | some a => exact slotted_pure

open ServiceCell

theorem slotted_applyFailure {reason : FailureReason} {now : ℕ} :
    Slotted (applyFailure reason now) := by
  refine slotted_get.bind fun record => ?_
  split
  · split
    · exact slotted_get.bind fun _ => slotted_okOr.bind fun _ => slotted_set
    · exact slotted_set
  · exact slotted_set
  · exact slotted_set.bind fun _ _ _ => rfl
  · exact slotted_set.bind fun _ _ _ => rfl

theorem slotted_notification {call : Call} {serviceId : ℕ} {operation : CellAct}
    (h : call.notification = some (serviceId, operation)) : Slotted operation := by
  cases call <;> cases h
  · refine slotted_set.bind fun _ => slotted_get.bind fun _ => ?_
    split
    · exact slotted_set
    · exact slotted_pure
  · exact slotted_set
  · refine slotted_set.bind fun _ => slotted_get.bind fun _ => ?_
    split
    · exact slotted_set
    · exact slotted_pure
  · exact slotted_get.bind fun _ => slotted_reject.bind fun _ => slotted_set
  · exact slotted_get.bind fun _ => slotted_reject.bind fun _ => slotted_applyFailure
  · refine slotted_get.bind fun _ => ?_
    split
    · exact slotted_reject.bind fun _ => slotted_set
    · exact slotted_fail
  · refine slotted_get.bind fun _ => ?_
    split
    · refine slotted_reject.bind fun _ => slotted_set.bind fun _ => slotted_okOr.bind fun after => ?_
      refine slotted_set.bind fun _ => ?_
      cases after with
      | failure reason => exact slotted_applyFailure
      | _ => exact slotted_pure
    · exact slotted_fail
  · exact slotted_get.bind fun _ => slotted_reject.bind fun _ => slotted_set.bind fun _ =>
      slotted_applyFailure
  · exact slotted_set

end

section

variable {supervisor start : Supervisor}

/-- The supervisor with no system action waiting. -/
def cleared (supervisor : Supervisor) : Supervisor := { supervisor with pendingSystemAction := none }

/-- A call asks for an action on the whole system: it puts it where nothing waits. -/
def Requests (supervisor : Supervisor) (call : Call) (action : SupervisorAction) : Prop :=
  (supervisor.cleared.perform call).2.pendingSystemAction = some action

/-- The system action that waits after a notification: the one it asks for, or the one before. -/
theorem pending_notify {call : Call} {serviceId : ℕ} {operation : CellAct}
    (h : call.notification = some (serviceId, operation)) :
    (onRecord serviceId operation supervisor).2.pendingSystemAction =
      (onRecord serviceId operation supervisor.cleared).2.pendingSystemAction.or
        supervisor.pendingSystemAction := by
  have hslotted := slotted_notification h
  unfold onRecord
  have hindex : supervisor.cleared.index serviceId = supervisor.index serviceId := rfl
  rw [hindex]
  split
  · rfl
  next index _ =>
    have hget : supervisor.cleared.records[index]? = supervisor.records[index]? := rfl
    rw [hget]
    split
    · rfl
    next record _ =>
      dsimp only [cleared]
      rw [hslotted record supervisor.pendingSystemAction]

variable {action : SupervisorAction}

/-- Only notifications ask for system actions. -/
theorem Requests.notification {call : Call} (h : Requests supervisor call action) :
    ∃ serviceId operation, call.notification = some (serviceId, operation) ∧
      (onRecord serviceId operation supervisor.cleared).2.pendingSystemAction = some action := by
  rcases perform_cases supervisor.cleared call with
    ⟨now, rfl⟩ | ⟨serviceId, operation, hcall, hperform⟩
  · have hnone : (supervisor.cleared.nextAction now).2.pendingSystemAction = none := by
      unfold Supervisor.nextAction cleared
      dsimp only
      split <;> rfl
    cases hnone.symm.trans h
  · rw [Requests, hperform] at h
    exact ⟨serviceId, operation, hcall, h⟩

/-- No failure asks for a system action while another one waits. -/
def OneAtATime (start : Supervisor) (calls : List Call) : Prop :=
  ∀ before call after action, calls = before ++ call :: after →
    Requests (start.run before) call action →
      ∀ waiting, (start.run before).pendingSystemAction = some waiting → waiting = action

/-- Every system action that a call asked for is handed out by a later `next_action`, if there is
one. -/
def Delivered (start : Supervisor) (calls : List Call) : Prop :=
  ∀ before call after action, calls = before ++ call :: after →
    Requests (start.run before) call action → (∃ now, Call.nextAction now ∈ after) →
      ∃ middle now rest, after = middle ++ Call.nextAction now :: rest ∧
        ((start.run (before ++ call :: middle)).nextAction now).1 = some action

theorem run_append (supervisor : Supervisor) (first second : List Call) :
    supervisor.run (first ++ second) = (supervisor.run first).run second :=
  List.foldl_append ..

theorem OneAtATime.drop (first : List Call) {second : List Call}
    (h : OneAtATime start (first ++ second)) :
    OneAtATime (start.run first) second := by
  rintro before call after action rfl hrequests
  rw [← run_append] at hrequests ⊢
  exact h (first ++ before) call after action (by simp) hrequests

/-- A system action that waits goes on waiting until it is handed out. -/
theorem waits_until_delivered {calls : List Call}
    (hpending : start.pendingSystemAction = some action) (hone : OneAtATime start calls)
    (hnext : ∃ now, Call.nextAction now ∈ calls) :
    ∃ middle now rest, calls = middle ++ Call.nextAction now :: rest ∧
      ((start.run middle).nextAction now).1 = some action := by
  induction calls generalizing start with
  | nil =>
    obtain ⟨now, hnow⟩ := hnext
    cases hnow
  | cons call calls ih =>
    rcases perform_cases start call with ⟨now, rfl⟩ | ⟨serviceId, operation, hcall, hperform⟩
    · refine ⟨[], now, calls, rfl, ?_⟩
      simp [run, Supervisor.nextAction, hpending]
    · -- a notification leaves it waiting, or asks for the same action again
      have hwaits : (start.perform call).2.pendingSystemAction = some action := by
        rw [hperform, pending_notify hcall, hpending]
        cases hrequest : (onRecord serviceId operation start.cleared).2.pendingSystemAction with
        | none => rfl
        | some other =>
          have hasked : Requests start call other := by
            rcases perform_cases start.cleared call with ⟨now, rfl⟩ | ⟨_, _, hcall', hcleared⟩
            · cases hcall
            · cases hcall.symm.trans hcall'
              rwa [Requests, hcleared]
          rw [hone [] call calls other rfl hasked action hpending]
          rfl
      obtain ⟨now, hnow⟩ := hnext
      have hlater : ∃ now, Call.nextAction now ∈ calls := by
        rcases List.mem_cons.mp hnow with rfl | hnow
        · cases hcall
        · exact ⟨now, hnow⟩
      obtain ⟨middle, now, rest, rfl, hdelivered⟩ :=
        ih hwaits (OneAtATime.drop [call] hone) hlater
      exact ⟨call :: middle, now, rest, rfl, hdelivered⟩

/-- No escalation is lost in a run in which no failure asks for a system action while another one
waits. -/
theorem escalation_delivered {calls : List Call} (h : OneAtATime start calls) :
    Delivered start calls := by
  rintro before call after action rfl hrequests hnext
  have hcalls : before ++ call :: after = (before ++ [call]) ++ after := by simp
  have hpending : (start.run (before ++ [call])).pendingSystemAction = some action := by
    rw [run_append]
    show ((start.run before).perform call).2.pendingSystemAction = some action
    obtain ⟨serviceId, operation, hcall, hrequested⟩ := hrequests.notification
    rcases perform_cases (start.run before) call with ⟨now, rfl⟩ | ⟨_, _, hcall', hperform⟩
    · cases hcall
    · cases hcall.symm.trans hcall'
      rw [hperform, pending_notify hcall, hrequested]
      rfl
  rw [hcalls] at h
  obtain ⟨middle, now, rest, rfl, hdelivered⟩ := waits_until_delivered hpending (h.drop _) hnext
  refine ⟨middle, now, rest, rfl, ?_⟩
  rw [← run_append] at hdelivered
  simpa using hdelivered

end

/-- A required service whose failure asks for an action on the whole system. -/
def criticalService (id : ℕ) (failureAction : FailureAction) : ServicePolicy :=
  { id, mode := .bootRequired, failureAction, restartLimit := 0, healthTimeoutMs := 100,
    lifetimeLimitMs := 0, dependencies := [] }

/-- Two critical services that ask for different actions. -/
def criticalPair : Supervisor :=
  ⟨[⟨criticalService 1 .previousGeneration, .up, .stopped, 0, false, none, ⟨[], 16, 0⟩⟩,
    ⟨criticalService 2 .recoveryShell, .up, .stopped, 0, false, none, ⟨[], 16, 0⟩⟩], none⟩

theorem criticalPair_new :
    new [criticalService 1 .previousGeneration, criticalService 2 .recoveryShell] false 16
      = .ok criticalPair := by
  decide

/-- One failure, and its action. -/
theorem escalation_delivered_single :
    Requests criticalPair (.launchFailed 1 0) (.activatePreviousGeneration 1) ∧
      ∃ middle now rest, [Call.nextAction 5] = middle ++ Call.nextAction now :: rest ∧
        ((criticalPair.run (.launchFailed 1 0 :: middle)).nextAction now).1
          = some (.activatePreviousGeneration 1) := by
  have hrequests : Requests criticalPair (.launchFailed 1 0) (.activatePreviousGeneration 1) := by
    unfold Requests
    decide
  refine ⟨hrequests, ?_⟩
  have hone : OneAtATime criticalPair [.launchFailed 1 0, .nextAction 5] := by
    intro before call after action hcalls hasked waiting hwaiting
    match before with
    | [] => cases hwaiting
    | [_] =>
      obtain ⟨-, rfl, -⟩ := hcalls
      obtain ⟨_, _, hcall, -⟩ := hasked.notification
      cases hcall
    | _ :: _ :: _ => simp at hcalls
  exact escalation_delivered hone [] (.launchFailed 1 0) [.nextAction 5] _ rfl hrequests
    ⟨5, List.mem_cons_self⟩

/-- Both critical services after they have failed. -/
def criticalFailed (pending : Option SupervisorAction) : Supervisor :=
  ⟨[⟨criticalService 1 .previousGeneration, .up, .failed .launchFailed, 0, false, none, ⟨[], 16, 0⟩⟩,
    ⟨criticalService 2 .recoveryShell, .up, .failed .launchFailed, 0, false, none, ⟨[], 16, 0⟩⟩],
    pending⟩

theorem criticalFailed_run (times : List ℕ) :
    (criticalFailed (some (.enterRecovery 2))).run (times.map Call.nextAction)
        = criticalFailed (some (.enterRecovery 2)) ∨
      (criticalFailed (some (.enterRecovery 2))).run (times.map Call.nextAction)
        = criticalFailed none := by
  cases times with
  | nil => exact .inl rfl
  | cons time times =>
    refine .inr ?_
    induction times with
    | nil => rfl
    | cons time times ih => exact ih

/-- Two failures before `next_action`: the action of the first is never handed out, however often
`next_action` is called. -/
theorem escalation_lost :
    new [criticalService 1 .previousGeneration, criticalService 2 .recoveryShell] false 16
        = .ok criticalPair ∧
      Requests criticalPair (.launchFailed 1 0) (.activatePreviousGeneration 1) ∧
      (∀ (times : List ℕ) now, ((criticalPair.run (.launchFailed 1 0 :: .launchFailed 2 0 ::
        times.map Call.nextAction)).nextAction now).1 ≠ some (.activatePreviousGeneration 1)) ∧
      ¬ Delivered criticalPair [.launchFailed 1 0, .launchFailed 2 0, .nextAction 0] := by
  have hrequests : Requests criticalPair (.launchFailed 1 0) (.activatePreviousGeneration 1) := by
    unfold Requests
    decide
  refine ⟨criticalPair_new, hrequests, fun times now => ?_, fun hdelivered => ?_⟩
  · have hrun : criticalPair.run (.launchFailed 1 0 :: .launchFailed 2 0 ::
        times.map Call.nextAction)
          = (criticalFailed (some (.enterRecovery 2))).run (times.map Call.nextAction) := rfl
    rw [hrun]
    rcases criticalFailed_run times with h | h
    · rw [h]
      exact fun hlaunch => by cases hlaunch
    · rw [h]
      exact fun hlaunch => by cases hlaunch
  · obtain ⟨middle, now, rest, hafter, hreturned⟩ := hdelivered [] (.launchFailed 1 0)
      [.launchFailed 2 0, .nextAction 0] _ rfl hrequests ⟨0, by simp⟩
    match middle with
    | [] => simp at hafter
    | [_] =>
      obtain ⟨rfl, -, -⟩ := hafter
      cases hreturned
    | _ :: _ :: _ => simp at hafter

end Troe.Supervisor
