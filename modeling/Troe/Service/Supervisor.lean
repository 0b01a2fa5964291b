import Troe.Task.Wait

/-!
# Supervision of resident services (`troe-supervisor`)

The supervisor holds one record for each configured service. Notifications change one record at a
time, and may ask for an action on the whole system, which is kept in one place until `next_action`
hands it out.
-/

namespace Troe.Supervisor

open Lib Troe.Task

/-- `MAX_SERVICES`. -/
def maxServices : ℕ := 32

/-- `STOP_GRACE_MILLISECONDS`. -/
def stopGraceMilliseconds : ℕ := 1000

/-- `MAX_RESTART_DELAY_MILLISECONDS`. -/
def maxRestartDelayMilliseconds : ℕ := 60000

/-- Desired administrative state of one configured service. -/
inductive DesiredState where
  | down
  | up
deriving DecidableEq

/-- Why one service attempt failed. -/
inductive FailureReason where
  | launchFailed
  | exited (status : ℕ)
  | faulted
  | readinessTimeout
  | watchdogTimeout
  | lifetimeExpired
deriving DecidableEq

/-- Why a running process is being asked to stop. -/
inductive StopReason where
  | requested
  | restart
  | dependencyUnavailable
  | readinessTimeout
  | lifetimeExpired
deriving DecidableEq

/-- What follows once a process has stopped. -/
inductive AfterStop where
  | down
  | restart
  | dependency
  | failure (reason : FailureReason)
deriving DecidableEq

/-- Observable runtime state of one configured service. Deadlines are in milliseconds. -/
inductive ServiceState where
  | stopped
  | starting (process : TaskId) (healthDeadline lifetimeDeadline : Option ℕ)
  | ready (process : TaskId) (lifetimeDeadline : Option ℕ)
  | backoff (deadline : ℕ) (reason : FailureReason)
  | stopping (process : TaskId) (deadline : ℕ) (reason : StopReason)
  | failed (reason : FailureReason)
deriving DecidableEq

namespace ServiceState

/-- `ServiceState::process`. -/
def process : ServiceState → Option TaskId
  | starting process _ _ | ready process _ | stopping process _ _ => some process
  | stopped | backoff _ _ | failed _ => none

/-- `ServiceState::is_ready`. -/
def isReady : ServiceState → Bool
  | ready _ _ => true
  | _ => false

/-- Whether a process was asked to stop and has not. -/
def isStopping : ServiceState → Bool
  | stopping _ _ _ => true
  | _ => false

/-- Whether policy left the service down. -/
def isFailed : ServiceState → Bool
  | failed _ => true
  | _ => false

end ServiceState

/-- One action for the composition root to execute. -/
inductive SupervisorAction where
  | launch (serviceId : ℕ)
  | requestStop (serviceId : ℕ) (process : TaskId) (reason : StopReason)
  | forceStop (serviceId : ℕ) (process : TaskId) (reason : StopReason)
  | activatePreviousGeneration (serviceId : ℕ)
  | enterRecovery (serviceId : ℕ)
deriving DecidableEq

/-- When a service is started. -/
inductive StartupMode where
  | bootRequired
  | bootOptional
  | onDemand
  | recoveryOnly
deriving DecidableEq

/-- Response to a startup or health failure. -/
inductive FailureAction where
  | «continue»
  | restart
  | previousGeneration
  | recoveryShell
deriving DecidableEq

/-- The configured policy of one service. -/
structure ServicePolicy where
  id : ℕ
  mode : StartupMode
  failureAction : FailureAction
  restartLimit : ℕ
  healthTimeoutMs : ℕ
  lifetimeLimitMs : ℕ
  dependencies : List ℕ
deriving DecidableEq

/-- Why a call was rejected. -/
inductive SupervisorError where
  | invalidPolicy
  | metadataExhausted
  | unknownService
  | invalidState
deriving DecidableEq

/-! ## Recent output -/

/-- The most recent output of a service. -/
structure BoundedLog where
  bytes : List UInt8
  capacity : ℕ
  dropped : ℕ
deriving DecidableEq

namespace BoundedLog

/-- `BoundedLog::new`. -/
def new (capacity : ℕ) : Except SupervisorError BoundedLog := do
  rejectIf (capacity = 0) .invalidPolicy
  return { bytes := [], capacity, dropped := 0 }

/-- `BoundedLog::append`. -/
def append (log : BoundedLog) (bytes : List UInt8) : BoundedLog :=
  let retainedStart := bytes.length - log.capacity
  let incoming := bytes.drop retainedStart
  let evictedExisting := log.bytes.length + incoming.length - log.capacity
  { log with
    bytes := log.bytes.drop evictedExisting ++ incoming
    dropped := min (log.dropped + retainedStart + evictedExisting) (2 ^ 64 - 1) }

end BoundedLog

/-! ## Records -/

/-- What the supervisor knows about one service. -/
structure ServiceRecord where
  policy : ServicePolicy
  desired : DesiredState
  state : ServiceState
  restarts : ℕ
  restartPending : Bool
  afterStop : Option AfterStop
  log : BoundedLog
deriving DecidableEq

/-- `MonotonicMillis::saturating_add`. -/
def saturatingAdd (now milliseconds : ℕ) : ℕ := min (now + milliseconds) (2 ^ 64 - 1)

/-- `restart_delay`. -/
def restartDelay (restarts : ℕ) : ℕ :=
  let shift := if 6 < restarts then 6 else restarts - 1
  let delay := 1000 * 2 ^ shift
  if maxRestartDelayMilliseconds < delay then maxRestartDelayMilliseconds else delay

/-- `nonzero_deadline`. -/
def nonzeroDeadline (now milliseconds : ℕ) : Option ℕ :=
  if milliseconds = 0 then none else some (saturatingAdd now milliseconds)

/-- `earliest`. -/
def earliest : Option ℕ → Option ℕ → Option ℕ
  | some first, some second => some (min first second)
  | some first, none => some first
  | none, some second => some second
  | none, none => none

/-- What a notification works on: one record, and the place for an action on the whole system. -/
structure ServiceCell where
  record : ServiceRecord
  pendingSystemAction : Option SupervisorAction

/-- An operation on one service. -/
abbrev CellAct : Type := Act ServiceCell SupervisorError Unit

namespace ServiceCell

/-- The record. -/
def get : Act ServiceCell SupervisorError ServiceRecord := fun cell => (.ok cell.record, cell)

/-- Change the record. -/
def set (f : ServiceRecord → ServiceRecord) : CellAct :=
  Act.modify fun cell => { cell with record := f cell.record }

/-- A terminal failure that asks for an action on the whole system. -/
def escalate (reason : FailureReason) (action : ℕ → SupervisorAction) : CellAct := do
  set fun record => { record with state := .failed reason }
  Act.modify fun cell =>
    { cell with pendingSystemAction := some (action cell.record.policy.id) }

/-- The restart branch of `apply_failure`. -/
def scheduleRestart (reason : FailureReason) (now : ℕ) : CellAct := do
  let record ← get
  let restarts ← Act.okOr (checkedAdd 8 record.restarts 1) .invalidState
  set fun record => { record with
    restarts
    state := .backoff (saturatingAdd now (restartDelay restarts)) reason }

/-- `apply_failure`. -/
def applyFailure (reason : FailureReason) (now : ℕ) : CellAct := do
  let record ← get
  match record.policy.failureAction with
  | .restart =>
    if record.restarts < record.policy.restartLimit then scheduleRestart reason now
    else set fun record => { record with state := .failed reason }
  | .continue => set fun record => { record with state := .failed reason }
  | .previousGeneration => escalate reason .activatePreviousGeneration
  | .recoveryShell => escalate reason .enterRecovery

/-- `request_start`. -/
def requestStart : CellAct := do
  set fun record => { record with desired := .up, restartPending := false }
  let record ← get
  if record.state.isFailed then
    set fun record => { record with state := .stopped, restarts := 0 }
  else pure ()

/-- `request_stop`. -/
def requestStop : CellAct :=
  set fun record => { record with desired := .down, restartPending := false }

/-- `request_restart`. -/
def requestRestart : CellAct := do
  set fun record => { record with desired := .up, restartPending := true }
  let record ← get
  if record.state = .stopped ∨ record.state.isFailed then
    set fun record => { record with restartPending := false, state := .stopped }
  else pure ()

/-- `launched`. -/
def launched (process : TaskId) (now : ℕ) : CellAct := do
  let record ← get
  Act.reject (record.desired ≠ .up ∨ record.state ≠ .stopped) .invalidState
  let healthDeadline := nonzeroDeadline now record.policy.healthTimeoutMs
  let lifetimeDeadline := nonzeroDeadline now record.policy.lifetimeLimitMs
  set fun record => { record with state := .starting process healthDeadline lifetimeDeadline }

/-- `launch_failed`. -/
def launchFailed (now : ℕ) : CellAct := do
  let record ← get
  Act.reject (record.desired ≠ .up ∨ record.state ≠ .stopped) .invalidState
  applyFailure .launchFailed now

/-- `ready`. -/
def ready (process : TaskId) : CellAct := do
  let record ← get
  match record.state with
  | .starting current _ lifetimeDeadline => do
    Act.reject (current ≠ process) .invalidState
    set fun record => { record with state := .ready process lifetimeDeadline }
  | _ => Act.fail .invalidState

/-- What follows a stop. -/
def followStop (now : ℕ) : AfterStop → CellAct
  | .down | .restart | .dependency => pure ()
  | .failure reason => applyFailure reason now

/-- `stopped`. -/
def stopped (process : TaskId) (now : ℕ) : CellAct := do
  let record ← get
  match record.state with
  | .stopping current _ _ => do
    Act.reject (current ≠ process) .invalidState
    set fun record => { record with afterStop := none }
    let after ← Act.okOr record.afterStop .invalidState
    set fun record => { record with state := .stopped }
    followStop now after
  | _ => Act.fail .invalidState

/-- `exited`. -/
def exited (process : TaskId) (status : Option ℕ) (now : ℕ) : CellAct := do
  let record ← get
  Act.reject (record.state.process ≠ some process ∨ record.state.isStopping) .invalidState
  set fun record => { record with state := .stopped }
  applyFailure (status.elim .faulted .exited) now

/-- `append_log`. -/
def appendLog (bytes : List UInt8) : CellAct :=
  set fun record => { record with log := record.log.append bytes }

end ServiceCell

/-! ## What one record calls for -/

namespace ServiceRecord

/-- `begin_stop`. -/
def beginStop (record : ServiceRecord) (process : TaskId) (now : ℕ) (reason : StopReason)
    (afterStop : AfterStop) : SupervisorAction × ServiceRecord :=
  (.requestStop record.policy.id process reason,
    { record with
      afterStop := some afterStop
      state := .stopping process (saturatingAdd now stopGraceMilliseconds) reason })

/-- Whether a deadline has passed. -/
def expired (now : ℕ) (deadline : Option ℕ) : Bool := deadline.any fun deadline => deadline ≤ now

/-- The body of the loop of `next_action`: the action a record calls for and the record then, or
nothing. -/
def act (record : ServiceRecord) (now : ℕ) (dependenciesReady : Bool) :
    Option (SupervisorAction × ServiceRecord) :=
  match record.state with
  | .stopped =>
    if record.desired = .up ∧ dependenciesReady then some (.launch record.policy.id, record)
    else none
  | .starting process healthDeadline lifetimeDeadline =>
    if record.desired = .down then some (record.beginStop process now .requested .down)
    else if record.restartPending then
      some ({ record with restartPending := false }.beginStop process now .restart .restart)
    else if ¬ dependenciesReady then
      some (record.beginStop process now .dependencyUnavailable .dependency)
    else if expired now healthDeadline then
      some (record.beginStop process now .readinessTimeout (.failure .readinessTimeout))
    else if expired now lifetimeDeadline then
      some (record.beginStop process now .lifetimeExpired (.failure .lifetimeExpired))
    else none
  | .ready process lifetimeDeadline =>
    if record.desired = .down then some (record.beginStop process now .requested .down)
    else if record.restartPending then
      some ({ record with restartPending := false }.beginStop process now .restart .restart)
    else if ¬ dependenciesReady then
      some (record.beginStop process now .dependencyUnavailable .dependency)
    else if expired now lifetimeDeadline then
      some (record.beginStop process now .lifetimeExpired (.failure .lifetimeExpired))
    else none
  | .backoff deadline _ =>
    if deadline ≤ now then some (.launch record.policy.id, { record with state := .stopped })
    else none
  | .stopping process deadline reason =>
    if deadline ≤ now then some (.forceStop record.policy.id process reason, record) else none
  | .failed _ => none

/-- The deadline a record contributes to `next_deadline`. -/
def deadline (record : ServiceRecord) : Option ℕ :=
  match record.state with
  | .starting _ healthDeadline lifetimeDeadline => earliest healthDeadline lifetimeDeadline
  | .ready _ lifetimeDeadline => lifetimeDeadline
  | .backoff deadline _ | .stopping _ deadline _ => some deadline
  | .stopped | .failed _ => none

end ServiceRecord

end Troe.Supervisor

/-! ## The supervisor -/

namespace Troe

open Lib Troe.Task Supervisor

/-- Bounded state machine for configured resident services. -/
structure Supervisor where
  records : List ServiceRecord
  pendingSystemAction : Option SupervisorAction
deriving DecidableEq

namespace Supervisor

/-- The desired state of a service before anybody asks. -/
def initialDesired (recovery : Bool) : StartupMode → DesiredState
  | .bootRequired | .bootOptional => if recovery then .down else .up
  | .recoveryOnly => if recovery then .up else .down
  | .onDemand => .down

/-- The loop of `new`. -/
def addPolicies (recovery : Bool) (logCapacity : ℕ) (records : List ServiceRecord) :
    List ServicePolicy → Except SupervisorError (List ServiceRecord)
  | [] => .ok records
  | policy :: policies => do
    rejectIf (policy.id = 0 ∨
      (∃ record ∈ records.getLast?, policy.id ≤ record.policy.id) ∨
      (∃ dependency ∈ policy.dependencies,
        ¬ ∃ record ∈ records, record.policy.id = dependency) ∨
      decide (policy.failureAction = .restart) ≠ decide (policy.restartLimit ≠ 0)) .invalidPolicy
    let log ← BoundedLog.new logCapacity
    let record : ServiceRecord :=
      { policy
        desired := initialDesired recovery policy.mode
        state := .stopped
        restarts := 0
        restartPending := false
        afterStop := none
        log }
    addPolicies recovery logCapacity (records ++ [record]) policies

/-- `Supervisor::new`. -/
def new (policies : List ServicePolicy) (recovery : Bool) (logCapacity : ℕ) :
    Except SupervisorError Supervisor := do
  rejectIf (maxServices < policies.length ∨ logCapacity = 0) .invalidPolicy
  let records ← addPolicies recovery logCapacity [] policies
  return { records, pendingSystemAction := none }

variable (supervisor : Supervisor)

/-- `index`. -/
def index (serviceId : ℕ) : Except SupervisorError ℕ :=
  okOr (supervisor.records.findIdx? fun record => record.policy.id = serviceId) .unknownService

/-- `record`. -/
def record (serviceId : ℕ) : Except SupervisorError ServiceRecord :=
  okOr (supervisor.records.find? fun record => record.policy.id = serviceId) .unknownService

/-- Whether these dependencies are all ready. -/
def allReady (dependencies : List ℕ) : Bool :=
  dependencies.all fun dependency =>
    (supervisor.records.find? fun record => record.policy.id = dependency).any
      fun record => record.state.isReady

/-- `dependencies_ready`. -/
def dependenciesReady (record : ServiceRecord) : Bool :=
  supervisor.allReady record.policy.dependencies

/-- Work on the record of a service. -/
def onRecord (serviceId : ℕ) (operation : CellAct) : Act Supervisor SupervisorError Unit :=
  fun supervisor =>
    match supervisor.index serviceId with
    | .error error => (.error error, supervisor)
    | .ok index =>
      match supervisor.records[index]? with
      | none => (.error .unknownService, supervisor)
      | some record =>
        let (result, cell) := operation ⟨record, supervisor.pendingSystemAction⟩
        (result,
          { records := supervisor.records.set index cell.record
            pendingSystemAction := cell.pendingSystemAction })

/-- The loop of `next_action`: the first action a record calls for, and the records then. -/
def firstAction (now : ℕ) :
    List ServiceRecord → Option (SupervisorAction × List ServiceRecord)
  | [] => none
  | record :: records =>
    match record.act now (supervisor.dependenciesReady record) with
    | some (action, record) => some (action, record :: records)
    | none => (firstAction now records).map fun (action, records) => (action, record :: records)

/-- `next_action`. -/
def nextAction (now : ℕ) : Option SupervisorAction × Supervisor :=
  match supervisor.pendingSystemAction with
  | some action => (some action, { supervisor with pendingSystemAction := none })
  | none =>
    match supervisor.firstAction now supervisor.records with
    | some (action, records) => (some action, { supervisor with records })
    | none => (none, supervisor)

/-- `next_deadline`. -/
def nextDeadline (now : ℕ) : Option ℕ :=
  ((supervisor.records.filterMap ServiceRecord.deadline).filter fun deadline => now < deadline).min?

/-! ## Runs -/

/-- A call on a supervisor. -/
inductive Call where
  | requestStart (serviceId : ℕ)
  | requestStop (serviceId : ℕ)
  | requestRestart (serviceId : ℕ)
  | launched (serviceId : ℕ) (process : TaskId) (now : ℕ)
  | launchFailed (serviceId now : ℕ)
  | ready (serviceId : ℕ) (process : TaskId)
  | stopped (serviceId : ℕ) (process : TaskId) (now : ℕ)
  | exited (serviceId : ℕ) (process : TaskId) (status : Option ℕ) (now : ℕ)
  | appendLog (serviceId : ℕ) (bytes : List UInt8)
  | nextAction (now : ℕ)

/-- A call other than `next_action`: the service it is about and what it does there. -/
def Call.notification : Call → Option (ℕ × CellAct)
  | requestStart serviceId => some (serviceId, ServiceCell.requestStart)
  | requestStop serviceId => some (serviceId, ServiceCell.requestStop)
  | requestRestart serviceId => some (serviceId, ServiceCell.requestRestart)
  | launched serviceId process now => some (serviceId, ServiceCell.launched process now)
  | launchFailed serviceId now => some (serviceId, ServiceCell.launchFailed now)
  | ready serviceId process => some (serviceId, ServiceCell.ready process)
  | stopped serviceId process now => some (serviceId, ServiceCell.stopped process now)
  | exited serviceId process status now => some (serviceId, ServiceCell.exited process status now)
  | appendLog serviceId bytes => some (serviceId, ServiceCell.appendLog bytes)
  | nextAction _ => none

/-- Make a call, whether or not it is rejected: the action it returns and the supervisor then. -/
def perform : Call → Option SupervisorAction × Supervisor
  | .nextAction now => supervisor.nextAction now
  | call => (none, call.notification.elim supervisor fun (serviceId, operation) =>
    (onRecord serviceId operation supervisor).2)

/-- Make calls one after the other. -/
def run (calls : List Call) : Supervisor :=
  calls.foldl (fun supervisor call => (supervisor.perform call).2) supervisor

/-- A supervisor that some run of some configuration has led to. -/
def Reached : Prop :=
  ∃ policies recovery logCapacity start calls, new policies recovery logCapacity = .ok start ∧
    supervisor = start.run calls

end Supervisor

end Troe
