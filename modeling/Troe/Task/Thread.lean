import Troe.Lib.Checked
import Troe.Lib.Act
import Troe.Lib.Slab

/-!
# Process-owned thread lifecycle (`troe-task::thread`)

One table serializes admission and lifecycle transitions. Its operations are `Act`s: what a call
wrote before it left with an error stays written.
-/

namespace Troe.Task

open Lib

/-- Largest number of records a table is built for. -/
def maxTasks : ℕ := 65536

/-- Largest slot generation. -/
def maxGeneration : ℕ := 2 ^ 32 - 1

/-- Identity of one application-process lifetime. -/
abbrev ProcessId : Type := ℕ

/-- A slot generation within the table and a process lifetime. -/
structure ThreadId where
  process : ProcessId
  slot : ℕ
  generation : ℕ
deriving DecidableEq

/-- One generation of a thread's blocking operation. -/
structure ThreadWait where
  thread : ThreadId
  sequence : ℕ
deriving DecidableEq

/-- Exclusive claim to consume a target's completion. -/
structure JoinClaim where
  caller : ThreadId
  target : ThreadId
  sequence : ℕ
deriving DecidableEq

/-- Reservation identity and page charge. -/
structure ThreadResources where
  reservation : ℕ
  pages : ℕ
deriving DecidableEq

/-- Limits selected by composition for one process. -/
structure ThreadQuota where
  records : ℕ
  pages : ℕ
deriving DecidableEq

inductive ThreadState where
  | prepared
  | ready
  | running
  | blocked
  | exiting
  | completed
  | revoked
deriving DecidableEq

structure ThreadSnapshot where
  id : ThreadId
  state : ThreadState
  stopRequested : Bool
  detached : Bool
  resourcesReleased : Bool
deriving DecidableEq

inductive ThreadError where
  | invalidLimit
  | metadataExhausted
  | metadataBudget
  | exhausted
  | unknownProcess
  | duplicateProcess
  | wrongOwner
  | stale
  | stopping
  | invalidState
  | busy
  | selfJoin
  | reservationInUse
deriving DecidableEq

structure ThreadProcess where
  id : ProcessId
  quota : ThreadQuota
  stopping : Bool
  initialAdmitted : Bool
  syncObjects : ℕ
  syncRegistered : Bool
  threadCursor : ℕ
deriving DecidableEq

structure Record where
  snapshot : ThreadSnapshot
  processSlot : ℕ
  creator : Option ThreadId
  resources : ThreadResources
  waitSequence : ℕ
  result : ℕ
  joined : Bool
  incomingJoin : Option JoinClaim
  outgoingJoin : Option JoinClaim
  syncWait : Bool
  controlWait : Bool
  ownedMutexes : ℕ
deriving DecidableEq

structure ThreadTable where
  processes : List (Option ThreadProcess)
  slots : GenSlab Record
  pageLimit : ℕ
  nextJoin : ℕ
  maxProcessThreads : ℕ
  processCursor : ℕ
  dispatchSequence : ℕ
  activeDispatch : Option (ProcessId × ℕ)
  dispatchClock : Option (ℕ × ℕ)
deriving DecidableEq

abbrev ThreadAct (α : Type) : Type := Act ThreadTable ThreadError α

/-- Update the first occupied slot that holds the given process. -/
def updateProcessSlot (owner : ProcessId) (f : ThreadProcess → ThreadProcess) :
    List (Option ThreadProcess) → List (Option ThreadProcess)
  | [] => []
  | none :: rest => none :: updateProcessSlot owner f rest
  | some process :: rest =>
    if process.id = owner then some (f process) :: rest
    else some process :: updateProcessSlot owner f rest

namespace ThreadTable

/-- `ThreadTable::new`. The compiled layouts and the heap are the environment's: the bytes that are
requested and retained, and whether the allocations were granted. -/
def new (processes threads pages maxMetadataBytes requestedBytes retainedBytes : ℕ)
    (granted : Bool) : Except ThreadError ThreadTable := do
  rejectIf (processes = 0 ∨ threads < processes ∨ maxTasks < threads) .invalidLimit
  rejectIf (pages = 0) .invalidLimit
  rejectIf (maxMetadataBytes < requestedBytes) .metadataBudget
  rejectIf (granted = false) .metadataExhausted
  rejectIf (maxMetadataBytes < retainedBytes) .metadataBudget
  return { processes := List.replicate processes none, slots := GenSlab.empty threads,
           pageLimit := pages, nextJoin := 1, maxProcessThreads := threads, processCursor := 0,
           dispatchSequence := 0, activeDispatch := none, dispatchClock := none }

/-! ## Lookup -/

variable (self : ThreadTable) (owner : ProcessId) (creator : ThreadId)

/-- The retained processes. -/
def liveProcesses : List ThreadProcess := self.processes.filterMap id

/-- The retained records. -/
def records : List Record := self.slots.filterMap GenSlot.value

/-- `process`. -/
def process : Except ThreadError ThreadProcess :=
  okOr (self.liveProcesses.find? (·.id = owner)) .unknownProcess

/-- The record of a lifetime, when its slot still holds it. -/
def find (id : ThreadId) : Option Record :=
  (self.slots.value id.slot).filter (·.snapshot.id = id)

/-- `record`. -/
def record (id : ThreadId) : Except ThreadError Record := do
  rejectIf (id.process ≠ owner) .wrongOwner
  okOr (self.find id) .stale

/-- A write through `process_mut`. -/
def updateProcess (f : ThreadProcess → ThreadProcess) : ThreadAct Unit := do
  let self ← .get
  let _ ← .ofExcept (self.process owner)
  .modify fun self => { self with processes := updateProcessSlot owner f self.processes }

/-- A write through `record_mut`. -/
def updateRecord (id : ThreadId) (f : Record → Record) : ThreadAct Unit := do
  let self ← .get
  let record ← .ofExcept (self.record owner id)
  .modify fun self => { self with slots := self.slots.put id.slot (some (f record)) }

/-- A write to every retained record. -/
def updateAll (f : Record → Record) : ThreadAct Unit :=
  .modify fun self =>
    { self with slots := self.slots.map fun slot => { slot with value := slot.value.map f } }

/-- `require_running`. -/
def requireRunning (id : ThreadId) : Except ThreadError Unit := do
  let record ← self.record owner id
  rejectIf (record.syncWait ∨ record.controlWait) .busy
  rejectIf (record.snapshot.state ≠ .running) .invalidState

/-- `validate_running`. -/
def validateRunning (id : ThreadId) : Except ThreadError Unit := do
  let process ← self.process owner
  rejectIf (process.stopping = true) .stopping
  self.requireRunning owner id

/-- `usage`: retained records and unreleased pages of a process. -/
def usage : ℕ × ℕ :=
  let owned := self.records.filter (·.snapshot.id.process = owner)
  (owned.length,
    (owned.map fun r => if r.snapshot.resourcesReleased then 0 else r.resources.pages).sum)

/-- `committed_pages`. -/
def committedPages : ℕ :=
  ((self.records.filter (·.snapshot.resourcesReleased = false)).map (·.resources.pages)).sum

/-- `transition`. -/
def transition (id : ThreadId) (source target : ThreadState) : ThreadAct Unit := do
  let self ← .get
  let record ← .ofExcept (self.record owner id)
  .reject (record.snapshot.state ≠ source) .invalidState
  updateRecord owner id fun r => { r with snapshot := { r.snapshot with state := target } }

/-! ## Admission -/

/-- `register_process`. -/
def registerProcess (quota : ThreadQuota) : ThreadAct Unit := do
  let self ← .get
  .reject (quota.records = 0 ∨ self.maxProcessThreads < quota.records ∨ quota.pages = 0 ∨
    self.pageLimit < quota.pages) .invalidLimit
  .reject (self.liveProcesses.any (·.id = owner)) .duplicateProcess
  let slot ← .okOr (self.processes.findIdx? Option.isNone) .exhausted
  .modify fun self => { self with
    processes := self.processes.set slot (some { id := owner, quota, stopping := false,
                                                 initialAdmitted := false, syncObjects := 0,
                                                 syncRegistered := false, threadCursor := 0 }) }

/-- The record `prepare` publishes. -/
def preparedRecord (id : ThreadId) (processSlot : ℕ) (creator : Option ThreadId)
    (resources : ThreadResources) : Record where
  snapshot := { id, state := .prepared, stopRequested := false, detached := creator.isNone,
                resourcesReleased := false }
  processSlot := processSlot
  creator := creator
  resources := resources
  waitSequence := 0
  result := 0
  joined := false
  incomingJoin := none
  outgoingJoin := none
  syncWait := false
  controlWait := false
  ownedMutexes := 0

/-- `prepare`. -/
def prepare (creator : Option ThreadId) (resources : ThreadResources) : ThreadAct ThreadId := do
  let self ← .get
  let processSlot ← .okOr (self.processes.findIdx? fun p => p.any (·.id = owner)) .unknownProcess
  let process ← .ofExcept (self.process owner)
  .reject (process.stopping = true) .stopping
  .reject (resources.reservation = 0 ∨ resources.pages = 0) .invalidLimit
  .reject (self.records.any fun r => !r.snapshot.resourcesReleased &&
    r.resources.reservation == resources.reservation) .reservationInUse
  let (records, pages) := self.usage owner
  .reject (process.quota.records ≤ records ∨
    (checkedAdd 64 pages resources.pages).all (process.quota.pages < ·) ∨
    (checkedAdd 64 self.committedPages resources.pages).all (self.pageLimit < ·)) .exhausted
  let index ← .okOr (self.slots.firstFree maxGeneration) .exhausted
  let id : ThreadId :=
    { process := owner, slot := index, generation := self.slots.generation index + 1 }
  .modify fun self => { self with
    slots := self.slots.occupy index (preparedRecord id processSlot creator resources) }
  return id

/-- `prepare_initial`. -/
def prepareInitial (resources : ThreadResources) : ThreadAct ThreadId := do
  let self ← .get
  let process ← .ofExcept (self.process owner)
  .reject (process.initialAdmitted = true) .invalidState
  let id ← prepare owner none resources
  updateProcess owner fun p => { p with initialAdmitted := true }
  return id

/-- `prepare_worker`. -/
def prepareWorker (resources : ThreadResources) : ThreadAct ThreadId := do
  let self ← .get
  .ofExcept (self.requireRunning owner creator)
  prepare owner (some creator) resources

/-- `start`. -/
def start (id : ThreadId) : ThreadAct Unit := do
  let self ← .get
  let process ← .ofExcept (self.process owner)
  .reject (process.stopping = true) .stopping
  transition owner id .prepared .ready

/-- `abort_prepared`. -/
def abortPrepared (id : ThreadId) : ThreadAct Unit := do
  let self ← .get
  let record ← .ofExcept (self.record owner id)
  transition owner id .prepared .revoked
  if record.creator.isNone then updateProcess owner fun p => { p with initialAdmitted := false }
  else return ()

/-- `validate_prepared_child`. -/
def validatePreparedChild (target : ThreadId) : Except ThreadError Unit := do
  self.validateRunning owner creator
  let record ← self.record owner target
  rejectIf (record.creator ≠ some creator ∨ record.snapshot.state ≠ .prepared ∨
    record.snapshot.resourcesReleased = true) .invalidState

/-- `start_worker`. -/
def startWorker (target : ThreadId) : ThreadAct Unit := do
  let self ← .get
  .ofExcept (self.validatePreparedChild owner creator target)
  start owner target

/-- `abort_worker`. -/
def abortWorker (target : ThreadId) : ThreadAct Unit := do
  let self ← .get
  .ofExcept (self.validatePreparedChild owner creator target)
  abortPrepared owner target

/-! ## Execution -/

/-- `dispatch`. -/
def dispatch (id : ThreadId) : ThreadAct Unit := do
  let self ← .get
  let process ← .ofExcept (self.process owner)
  .reject (process.stopping = true) .stopping
  .reject (self.activeDispatch.any (·.1 ≠ owner)) .busy
  .reject (self.records.any (·.snapshot.state = .running)) .busy
  transition owner id .ready .running

/-- `yield_running`. -/
def yieldRunning (id : ThreadId) : ThreadAct Unit :=
  transition owner id .running .ready

/-- `block`. -/
def block (id : ThreadId) : ThreadAct ThreadWait := do
  let self ← .get
  .ofExcept (self.requireRunning owner id)
  let record ← .ofExcept (self.record owner id)
  let sequence ← .okOr (checkedAdd 64 record.waitSequence 1) .exhausted
  updateRecord owner id fun r =>
    { r with waitSequence := sequence, snapshot := { r.snapshot with state := .blocked } }
  return { thread := id, sequence }

/-- `wake`. -/
def wake (wait : ThreadWait) : ThreadAct Unit := do
  let self ← .get
  let record ← .ofExcept (self.record owner wait.thread)
  .reject (record.syncWait ∨ record.controlWait) .busy
  .reject (record.snapshot.state ≠ .blocked ∨ record.waitSequence ≠ wait.sequence) .stale
  updateRecord owner wait.thread fun r => { r with snapshot := { r.snapshot with state := .ready } }

/-- `request_stop`. -/
def requestStop (id : ThreadId) : ThreadAct Unit :=
  updateRecord owner id fun r => { r with snapshot := { r.snapshot with stopRequested := true } }

/-! ## Completion -/

/-- `validate_claim`. -/
def validateClaim (claim : JoinClaim) : Except ThreadError Unit := do
  let caller ← self.record owner claim.caller
  rejectIf (caller.outgoingJoin ≠ some claim) .stale
  let target ← self.record owner claim.target
  rejectIf (target.incomingJoin ≠ some claim) .stale

/-- `cancel_join`. -/
def cancelJoin (claim : JoinClaim) : ThreadAct Unit := do
  let self ← .get
  .ofExcept (self.validateClaim owner claim)
  updateRecord owner claim.caller fun r => { r with outgoingJoin := none }
  updateRecord owner claim.target fun r => { r with incomingJoin := none }

/-- The claim an exiting thread gives up. -/
def cancelOutgoing (record : Record) : ThreadAct Unit :=
  match record.outgoingJoin with
  | some claim => cancelJoin owner claim
  | none => pure ()

/-- `begin_exit`. -/
def beginExit (id : ThreadId) : ThreadAct Unit := do
  let self ← .get
  .ofExcept (self.requireRunning owner id)
  let record ← .ofExcept (self.record owner id)
  .reject (record.ownedMutexes ≠ 0) .busy
  cancelOutgoing owner record
  transition owner id .running .exiting
  updateAll fun r =>
    if r.creator = some id ∧ r.snapshot.state = .prepared then
      { r with snapshot := { r.snapshot with state := .revoked } }
    else r

/-- `complete`. -/
def complete (id : ThreadId) (result : ℕ) : ThreadAct Unit := do
  transition owner id .exiting .completed
  updateRecord owner id fun r => { r with result }

/-- `validate_join`. -/
def validateJoin (caller target : ThreadId) : Except ThreadError Unit := do
  self.requireRunning owner caller
  rejectIf (caller = target) .selfJoin
  let callerRecord ← self.record owner caller
  rejectIf (callerRecord.outgoingJoin.isSome = true) .busy
  let record ← self.record owner target
  rejectIf (record.snapshot.detached ∨ record.joined ∨ record.incomingJoin.isSome) .busy
  rejectIf (record.snapshot.state = .prepared ∨ record.snapshot.state = .revoked) .invalidState

/-- `claim_join`. -/
def claimJoin (caller target : ThreadId) : ThreadAct JoinClaim := do
  let self ← .get
  .ofExcept (self.validateJoin owner caller target)
  let next ← .okOr (checkedAdd 64 self.nextJoin 1) .exhausted
  let claim : JoinClaim := { caller, target, sequence := self.nextJoin }
  .modify fun self => { self with nextJoin := next }
  updateRecord owner caller fun r => { r with outgoingJoin := some claim }
  updateRecord owner target fun r => { r with incomingJoin := some claim }
  return claim

/-- `join_result`. -/
def joinResult (claim : JoinClaim) : ThreadAct (Option ℕ) := do
  let self ← .get
  .ofExcept (self.validateClaim owner claim)
  let record ← .ofExcept (self.record owner claim.target)
  if record.snapshot.state ≠ .completed ∨ record.snapshot.resourcesReleased = false then
    return none
  else do
    cancelJoin owner claim
    updateRecord owner claim.target fun r => { r with joined := true }
    return some record.result

/-- `detach`. -/
def detach (id : ThreadId) : ThreadAct Unit := do
  let self ← .get
  let record ← .ofExcept (self.record owner id)
  .reject (record.snapshot.detached ∨ record.joined ∨ record.incomingJoin.isSome) .busy
  .reject (record.snapshot.state = .revoked) .invalidState
  updateRecord owner id fun r => { r with snapshot := { r.snapshot with detached := true } }

/-- A record after its process was stopped. -/
def stoppedRecord (r : Record) : Record :=
  { r with snapshot := { r.snapshot with state := .revoked, stopRequested := true },
           incomingJoin := none, outgoingJoin := none, controlWait := false }

/-- `stop_process`. -/
def stopProcess : ThreadAct Unit := do
  updateProcess owner fun p => { p with stopping := true }
  .modify fun self => { self with
    activeDispatch := if self.activeDispatch.any (·.1 = owner) then none else self.activeDispatch }
  updateAll fun r => if r.snapshot.id.process = owner then stoppedRecord r else r

/-- `release_resources`. -/
def releaseResources (id : ThreadId) : ThreadAct ThreadResources := do
  let self ← .get
  let record ← .ofExcept (self.record owner id)
  .reject (record.snapshot.state ≠ .completed ∧ record.snapshot.state ≠ .revoked) .invalidState
  .reject (record.snapshot.resourcesReleased = true) .stale
  .reject (record.syncWait ∨ record.controlWait ∨ record.ownedMutexes ≠ 0) .busy
  updateRecord owner id fun r => { r with snapshot := { r.snapshot with resourcesReleased := true } }
  return record.resources

/-- `reap`. -/
def reap (id : ThreadId) : ThreadAct Unit := do
  let self ← .get
  let record ← .ofExcept (self.record owner id)
  .reject (record.snapshot.resourcesReleased = false ∨ record.incomingJoin.isSome ∨
    record.outgoingJoin.isSome) .busy
  .reject (record.snapshot.state ≠ .revoked ∧
    ¬ (record.snapshot.state = .completed ∧ (record.snapshot.detached ∨ record.joined))) .busy
  .modify fun self => { self with slots := self.slots.put id.slot none }

/-- `remove_process`. -/
def removeProcess : ThreadAct Unit := do
  let self ← .get
  .reject ((self.usage owner).1 ≠ 0) .busy
  let process ← .ofExcept (self.process owner)
  .reject (process.syncRegistered ∨ self.activeDispatch.any (·.1 = owner)) .busy
  let slot ← .okOr (self.processes.findIdx? fun p => p.any (·.id = owner)) .unknownProcess
  .modify fun self => { self with processes := self.processes.set slot none }

end ThreadTable

end Troe.Task
