import Troe.Task.Wait

/-!
# The round-robin scheduler (`troe-task::Scheduler`)

Task records in a vector, and a cursor where the next search for a ready task starts. New records
are appended and reaped ones removed at any time. Whether the heap grants a reservation is a
parameter of the calls that reserve.
-/

namespace Troe.Task

open Lib

/-- Stable scheduler failures. -/
inductive TaskError where
  | invalidCapacity
  | metadataExhausted
  | capacityExhausted
  | identityExhausted
  | stackInUse
  | addressSpaceInUse
  | unknownTask
  | taskAlreadyRunning
  | invalidState
  | accountingOverflow

/-- Authority of a task, as a set of bits. -/
structure Capabilities where
  bits : BitVec 32
deriving DecidableEq

/-- `Capabilities::contains`. -/
def Capabilities.contains (self requested : Capabilities) : Bool :=
  self.bits &&& requested.bits = requested.bits

/-- A guarded-stack slot. -/
structure StackResource where
  slot : ℕ
  mappedPages : ℕ

/-- The resources of an isolated task. -/
structure IsolationResource where
  slot : ℕ
  tablePages : ℕ
  privatePages : ℕ
  handles : ℕ

/-- Contained native faults. -/
inductive TaskFault where
  | translation
  | permission
  | illegalInstruction
  | invalidCall
  | executionLeaseExpired
  | serviceCallLimitExceeded

/-- Lifecycle of a task. -/
inductive TaskState where
  | ready
  | running
  | blocked (wait : WaitKey)
  | exited
  | faulted
deriving DecidableEq

/-- `TaskState::Exited` or `TaskState::Faulted`. -/
def TaskState.isTerminal : TaskState → Bool
  | .exited => true
  | .faulted => true
  | _ => false

/-- `TaskState::Blocked(_)`. -/
def TaskState.isBlocked : TaskState → Bool
  | .blocked _ => true
  | _ => false

/-- One task record. -/
structure TaskSnapshot where
  id : TaskId
  state : TaskState
  capabilities : Capabilities
  stack : StackResource
  dispatches : ℕ
  yields : ℕ
  preemptions : ℕ
  exitStatus : Option ℕ
  isolation : Option IsolationResource
  fault : Option TaskFault

/-- What reaping returns. -/
structure ReapedTask where
  id : TaskId
  stack : StackResource
  exitStatus : ℕ
  isolation : Option IsolationResource
  fault : Option TaskFault

/-- Failures of an isolated teardown. -/
inductive TeardownError (ρ : Type) where
  | task (error : TaskError)
  | revocation (error : ρ)

structure Scheduler where
  records : List TaskSnapshot
  capacity : ℕ
  cursor : ℕ
  current : Option TaskId
  nextId : ℕ
  spawned : ℕ
  reaped : ℕ
  totalYields : ℕ
  totalPreemptions : ℕ
  totalBlocks : ℕ
  totalWakes : ℕ
  containedFaults : ℕ

/-- An operation on the scheduler. -/
abbrev Sched (α : Type) : Type := Act Scheduler TaskError α

/-- The next value of a `u32` counter. -/
def bump (counter : ℕ) : Sched ℕ := .okOr (checkedAdd 32 counter 1) .accountingOverflow

namespace Scheduler

/-- `Scheduler::new`. -/
def new (capacity : ℕ) (reserves : Bool) : Except TaskError Scheduler :=
  if capacity = 0 ∨ maxTasks < capacity then .error .invalidCapacity
  else if reserves then
    .ok { records := [], capacity, cursor := 0, current := none, nextId := 1, spawned := 0,
          reaped := 0, totalYields := 0, totalPreemptions := 0, totalBlocks := 0, totalWakes := 0,
          containedFaults := 0 }
  else .error .metadataExhausted

/-! ## Records -/

/-- The first record with the identity, and where it is. -/
def find (s : Scheduler) (id : TaskId) : Option (ℕ × TaskSnapshot) :=
  (s.records.findIdx? (·.id = id)).bind fun index => (s.records[index]?).map (index, ·)

variable (id : TaskId)

/-- The first record with the identity, as `record_mut` finds it. -/
def recordMut : Sched (ℕ × TaskSnapshot) := do
  let s ← .get
  .okOr (s.find id) .unknownTask

/-- Store a record that was changed in place. -/
def put (s : Scheduler) (index : ℕ) (snapshot : TaskSnapshot) : Scheduler :=
  { s with records := s.records.set index snapshot }

/-- Leave unless the task is the current one. -/
def requireCurrent : Sched Unit := do
  let s ← .get
  .reject (s.current ≠ some id) .invalidState

/-! ## Creation and selection -/

/-- `Scheduler::spawn_with_isolation`; `spawn` and `spawn_isolated` pass `None` or a resource. -/
def spawnWithIsolation (capabilities : Capabilities) (stack : StackResource)
    (isolation : Option IsolationResource) (reserves : Bool) : Sched TaskId := do
  let s ← .get
  .reject (s.records.length = s.capacity) .capacityExhausted
  .reject (s.records.any (·.stack.slot = stack.slot)) .stackInUse
  .reject (isolation.any fun wanted =>
    s.records.any fun record => record.isolation.any (·.slot = wanted.slot)) .addressSpaceInUse
  let nextId ← .okOr (checkedAdd 32 s.nextId 1) .identityExhausted
  let spawned ← bump s.spawned
  .reject (reserves = false) .metadataExhausted
  .modify fun s => { s with
    records := s.records ++ [{ id := s.nextId, state := .ready, capabilities, stack,
                               dispatches := 0, yields := 0, preemptions := 0, exitStatus := none,
                               isolation, fault := none }]
    nextId, spawned }
  return s.nextId

/-- Whether `dispatch_next` may select the record. -/
def eligible (required : Capabilities) (snapshot : TaskSnapshot) : Bool :=
  snapshot.state = .ready && snapshot.capabilities.contains required

/-- The first eligible record from the cursor on, around the end of the vector. -/
def firstEligible (s : Scheduler) (required : Capabilities) : Option (ℕ × TaskSnapshot) :=
  (List.range s.records.length).findSome? fun offset =>
    let index := (s.cursor + offset) % s.records.length
    ((s.records[index]?).filter (eligible required)).map (index, ·)

/-- Make a record the running one and move the cursor behind it. -/
def select (index : ℕ) (snapshot : TaskSnapshot) : Sched TaskId := do
  let dispatches ← bump snapshot.dispatches
  .modify fun s => { s.put index { snapshot with dispatches, state := .running } with
    current := some snapshot.id
    cursor := (index + 1) % s.records.length }
  return snapshot.id

/-- `Scheduler::dispatch_next`. -/
def dispatchNext (required : Capabilities) : Sched (Option TaskId) := do
  let s ← .get
  .reject s.current.isSome .taskAlreadyRunning
  match s.firstEligible required with
  | none => return none
  | some found =>
    let id ← select found.1 found.2
    return some id

/-- `Scheduler::dispatch`. -/
def dispatch (required : Capabilities) : Sched TaskId := do
  let s ← .get
  .reject s.current.isSome .taskAlreadyRunning
  let found ← recordMut id
  .reject (eligible required found.2 = false) .invalidState
  select found.1 found.2

/-! ## Transitions -/

/-- `Scheduler::yield_current`. -/
def yieldCurrent : Sched Unit := do
  requireCurrent id
  let s ← .get
  let totalYields ← bump s.totalYields
  let found ← recordMut id
  .reject (found.2.state ≠ .running) .invalidState
  let yields ← bump found.2.yields
  .modify fun s => { s.put found.1 { found.2 with yields, state := .ready } with
    totalYields, current := none }

/-- `Scheduler::preempt_current`. -/
def preemptCurrent : Sched Unit := do
  requireCurrent id
  let s ← .get
  let totalPreemptions ← bump s.totalPreemptions
  let found ← recordMut id
  .reject (found.2.state ≠ .running) .invalidState
  let preemptions ← bump found.2.preemptions
  .modify fun s => { s.put found.1 { found.2 with preemptions, state := .ready } with
    totalPreemptions, current := none }

/-- `Scheduler::block_current`. -/
def blockCurrent (wait : WaitKey) : Sched Unit := do
  requireCurrent id
  let s ← .get
  let totalBlocks ← bump s.totalBlocks
  let found ← recordMut id
  .reject (found.2.state ≠ .running ∨ found.2.isolation.isNone) .invalidState
  .modify fun s => { s.put found.1 { found.2 with state := .blocked wait } with
    totalBlocks, current := none }

/-- `Scheduler::wake_blocked`. -/
def wakeBlocked (wait : WaitKey) : Sched Unit := do
  let s ← .get
  let totalWakes ← bump s.totalWakes
  let found ← recordMut id
  .reject (found.2.state ≠ .blocked wait) .invalidState
  .modify fun s => { s.put found.1 { found.2 with state := .ready } with totalWakes }

/-- The replacement part of `resize_current_isolation` and `resize_ready_isolation`. -/
def resizeIsolation (found : ℕ × TaskSnapshot) (replacement : IsolationResource) : Sched Unit := do
  let current ← .okOr found.2.isolation .invalidState
  .reject (current.slot ≠ replacement.slot ∨ current.handles ≠ replacement.handles) .invalidState
  .modify fun s => s.put found.1 { found.2 with isolation := some replacement }

/-- `Scheduler::resize_current_isolation`. -/
def resizeCurrentIsolation (replacement : IsolationResource) : Sched Unit := do
  requireCurrent id
  let found ← recordMut id
  .reject (found.2.state ≠ .running) .invalidState
  resizeIsolation found replacement

/-- `Scheduler::resize_ready_isolation`. -/
def resizeReadyIsolation (replacement : IsolationResource) : Sched Unit := do
  let s ← .get
  .reject (s.current = some id) .invalidState
  let found ← recordMut id
  .reject (found.2.state ≠ .ready) .invalidState
  resizeIsolation found replacement

/-- `Scheduler::exit_current`. -/
def exitCurrent (status : ℕ) : Sched Unit := do
  requireCurrent id
  let found ← recordMut id
  .reject (found.2.state ≠ .running) .invalidState
  .modify fun s => { s.put found.1 { found.2 with state := .exited, exitStatus := some status } with
    current := none }

/-- The shared part of `cancel_ready` and `cancel_blocked`. -/
def cancel (inState : TaskState → Bool) (id : TaskId) (status : ℕ) : Sched Unit := do
  let found ← recordMut id
  .reject (inState found.2.state = false ∨ found.2.isolation.isNone) .invalidState
  .modify fun s => s.put found.1 { found.2 with state := .exited, exitStatus := some status }

/-- `Scheduler::cancel_ready`. -/
def cancelReady (status : ℕ) : Sched Unit :=
  cancel (fun state => state = .ready) id status

/-- `Scheduler::cancel_blocked`. -/
def cancelBlocked (status : ℕ) : Sched Unit := cancel TaskState.isBlocked id status

/-- `Scheduler::fault_current`. -/
def faultCurrent (fault : TaskFault) : Sched Unit := do
  requireCurrent id
  let s ← .get
  let containedFaults ← bump s.containedFaults
  let found ← recordMut id
  .reject (found.2.state ≠ .running ∨ found.2.isolation.isNone) .invalidState
  .modify fun s => { s.put found.1 { found.2 with state := .faulted, exitStatus := some 128,
                                                  fault := some fault } with
    current := none, containedFaults }

/-- `Scheduler::fault_blocked`. -/
def faultBlocked (fault : TaskFault) : Sched Unit := do
  let s ← .get
  let containedFaults ← bump s.containedFaults
  let found ← recordMut id
  .reject (found.2.state.isBlocked = false ∨ found.2.isolation.isNone) .invalidState
  .modify fun s => { s.put found.1 { found.2 with state := .faulted, exitStatus := some 128,
                                                  fault := some fault } with
    containedFaults }

/-! ## Removal -/

/-- Where the cursor stands after the record at `index` is removed and `count` are left. -/
def cursorAfter (cursor index count : ℕ) : ℕ :=
  if count = 0 then 0
  else if index < cursor then cursor - 1
  else if count ≤ cursor then 0
  else cursor

/-- `Scheduler::reap`. The record is gone even if it had no status. -/
def reap : Sched ReapedTask := do
  let found ← recordMut id
  .reject (found.2.state.isTerminal = false) .invalidState
  let s ← .get
  let reaped ← bump s.reaped
  .modify fun s => { s with
    records := s.records.eraseIdx found.1
    reaped
    cursor := cursorAfter s.cursor found.1 (s.records.length - 1) }
  let exitStatus ← .okOr found.2.exitStatus .invalidState
  return { id, stack := found.2.stack, exitStatus, isolation := found.2.isolation,
           fault := found.2.fault }

/-- An operation whose failures are those of the task. -/
def asTeardown {ρ α : Type} (x : Sched α) : Act Scheduler (TeardownError ρ) α := fun s =>
  match x s with
  | (.ok a, s') => (.ok a, s')
  | (.error e, s') => (.error (.task e), s')

/-- The terminal transition of `terminate_revoke_and_reap`. -/
def terminalize (state : TaskState) (rollbackStatus : ℕ) : Sched Unit :=
  match state with
  | .ready => cancelReady id rollbackStatus
  | .running => exitCurrent id rollbackStatus
  | .blocked _ => cancelBlocked id rollbackStatus
  | .exited => pure ()
  | .faulted => pure ()

/-- `Scheduler::terminate_revoke_and_reap`. -/
def terminateRevokeAndReap {ρ : Type} (id : TaskId) (rollbackStatus : ℕ)
    (revoke : TaskSnapshot → Except ρ Unit) : Act Scheduler (TeardownError ρ) ReapedTask := do
  let found ← asTeardown (recordMut id)
  .reject found.2.isolation.isNone (.task .invalidState)
  asTeardown (terminalize id found.2.state rollbackStatus)
  let terminal ← asTeardown (recordMut id)
  .ofExcept ((revoke terminal.2).mapError .revocation)
  asTeardown (reap id)

end Scheduler

/-! ## Runs -/

/-- The calls that change a scheduler. The revocation of a teardown succeeds or fails. -/
inductive SchedulerCall where
  | spawn (capabilities : Capabilities) (stack : StackResource)
      (isolation : Option IsolationResource) (reserves : Bool)
  | dispatchNext (required : Capabilities)
  | dispatch (id : TaskId) (required : Capabilities)
  | yieldCurrent (id : TaskId)
  | preemptCurrent (id : TaskId)
  | blockCurrent (id : TaskId) (wait : WaitKey)
  | wakeBlocked (id : TaskId) (wait : WaitKey)
  | resizeCurrentIsolation (id : TaskId) (replacement : IsolationResource)
  | resizeReadyIsolation (id : TaskId) (replacement : IsolationResource)
  | exitCurrent (id : TaskId) (status : ℕ)
  | cancelReady (id : TaskId) (status : ℕ)
  | cancelBlocked (id : TaskId) (status : ℕ)
  | faultCurrent (id : TaskId) (fault : TaskFault)
  | faultBlocked (id : TaskId) (fault : TaskFault)
  | reap (id : TaskId)
  | terminateRevokeAndReap (id : TaskId) (rollbackStatus : ℕ) (revoked : Bool)

namespace SchedulerCall

open Scheduler in
/-- The scheduler after a call. -/
def perform (s : Scheduler) : SchedulerCall → Scheduler
  | spawn capabilities stack isolation reserves =>
    (spawnWithIsolation capabilities stack isolation reserves s).2
  | dispatchNext required => (Scheduler.dispatchNext required s).2
  | dispatch id required => (Scheduler.dispatch id required s).2
  | yieldCurrent id => (Scheduler.yieldCurrent id s).2
  | preemptCurrent id => (Scheduler.preemptCurrent id s).2
  | blockCurrent id wait => (Scheduler.blockCurrent id wait s).2
  | wakeBlocked id wait => (Scheduler.wakeBlocked id wait s).2
  | resizeCurrentIsolation id replacement => (Scheduler.resizeCurrentIsolation id replacement s).2
  | resizeReadyIsolation id replacement => (Scheduler.resizeReadyIsolation id replacement s).2
  | exitCurrent id status => (Scheduler.exitCurrent id status s).2
  | cancelReady id status => (Scheduler.cancelReady id status s).2
  | cancelBlocked id status => (Scheduler.cancelBlocked id status s).2
  | faultCurrent id fault => (Scheduler.faultCurrent id fault s).2
  | faultBlocked id fault => (Scheduler.faultBlocked id fault s).2
  | reap id => (Scheduler.reap id s).2
  | terminateRevokeAndReap id rollbackStatus revoked =>
    (Scheduler.terminateRevokeAndReap id rollbackStatus
      (fun _ => if revoked then .ok () else .error ()) s).2

/-- The task a call selects. -/
def selected (s : Scheduler) : SchedulerCall → Option TaskId
  | dispatchNext required => (Scheduler.dispatchNext required s).1.toOption.join
  | dispatch id required => (Scheduler.dispatch id required s).1.toOption
  | _ => none

end SchedulerCall

namespace Scheduler

/-- The scheduler after a sequence of calls. -/
def after (s : Scheduler) (calls : List SchedulerCall) : Scheduler :=
  calls.foldl SchedulerCall.perform s

/-- The tasks a sequence of calls selects, in order. -/
def selections (s : Scheduler) : List SchedulerCall → List TaskId
  | [] => []
  | call :: calls => (call.selected s).toList ++ selections (call.perform s) calls

/-- The schedulers that calls lead to from a new one. -/
def Reached (s : Scheduler) : Prop :=
  ∃ capacity start calls, new capacity true = .ok start ∧ s = start.after calls

end Scheduler

end Troe.Task
