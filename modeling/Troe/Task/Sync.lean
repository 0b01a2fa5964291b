import Troe.Task.Thread

/-!
# Process-private synchronization (`troe-task::thread::sync`)

Mutexes, conditions and permits with FIFO wait queues. The queues are intrusive: a waiter sits in
one slab and carries the links of the queue it is on. `SyncState` pairs the table with the thread
table it blocks and wakes, and with a history of what happened to the queues, which the operations
only append to.
-/

namespace Troe.Task

open Lib
open ThreadTable (updateProcess updateRecord)

structure ObjectId where
  process : ProcessId
  slot : ℕ
  generation : ℕ
deriving DecidableEq

/-- Handle of a mutex. -/
structure MutexId where
  object : ObjectId
deriving DecidableEq

/-- Handle of a condition. -/
structure ConditionId where
  object : ObjectId

/-- Handle of a permit. -/
structure PermitId where
  object : ObjectId

/-- One outstanding operation. -/
abbrev SyncWait : Type := ThreadWait

/-- Immutable response to exit while owning a mutex. -/
inductive OwnerDeath where
  | poison
  | failProcess
deriving DecidableEq

structure SyncQuota where
  objects : ℕ
  waits : ℕ
deriving DecidableEq

structure WaitOptions where
  deadline : Option ℕ
  observeStop : Bool
deriving DecidableEq

structure ConditionWait where
  condition : ConditionId
  mutex : MutexId
  options : WaitOptions

inductive WaitMode where
  | try
  | wait (options : WaitOptions)

inductive SyncOutcome where
  | acquired
  | wouldBlock
  | notified
  | timedOut
  | stopped
  | poisoned
deriving DecidableEq

inductive SyncStart where
  | complete (outcome : SyncOutcome)
  | waiting (token : SyncWait)
deriving DecidableEq

inductive ExitEffect where
  | threadExiting
  | processStopped

inductive SyncError where
  | thread (e : ThreadError)
  | invalidLimit
  | metadataExhausted
  | metadataBudget
  | unknownProcess
  | duplicateProcess
  | exhausted
  | wrongOwner
  | stale
  | busy
  | notOwner
  | deadlock
  | differentMutex
  | overflow
  | clockRegressed
deriving DecidableEq

structure WaitQueue where
  head : Option ℕ
  tail : Option ℕ
deriving DecidableEq

inductive Kind where
  | mutex (owner : Option ThreadId) (poisoned : Bool) (policy : OwnerDeath)
  | condition
  | permit (count maximum : ℕ)
deriving DecidableEq

structure Object where
  id : ObjectId
  kind : Kind
  queue : WaitQueue
deriving DecidableEq

inductive Phase where
  | queued
  | reacquiring (cause : SyncOutcome)
  | complete (outcome : SyncOutcome)
deriving DecidableEq

structure Waiter where
  token : SyncWait
  source : ObjectId
  mutex : Option MutexId
  phase : Phase
  options : WaitOptions
  queuedOn : Option ObjectId
  previous : Option ℕ
  next : Option ℕ
deriving DecidableEq

/-- `Waiter::references`. -/
def Waiter.references (self : Waiter) (object : ObjectId) : Bool :=
  self.source = object || self.mutex.any (·.object = object)

structure SyncProcess where
  id : ProcessId
  quota : SyncQuota
deriving DecidableEq

structure SyncTable where
  processes : List (Option SyncProcess)
  objects : GenSlab Object
  waits : List (Option Waiter)
  lastNow : ℕ
deriving DecidableEq

/-- What the history records. -/
inductive SyncEvent where
  | created (id : ObjectId) (kind : Kind)
  | queued (id : ObjectId) (token : SyncWait)
  | granted (id : ObjectId) (token : SyncWait)
  | taken (id : ObjectId)
  | released (id : ObjectId) (count : ℕ)
  | waits (token : SyncWait) (source : ObjectId) (mutex : Option MutexId)
  | retired (id : ObjectId)
deriving DecidableEq

/-- The table, the thread table it is paired with, and the history of both. -/
structure SyncState where
  threads : ThreadTable
  sync : SyncTable
  history : List SyncEvent
deriving DecidableEq

abbrev SyncAct (α : Type) : Type := Act SyncState SyncError α

namespace SyncTable

/-- `SyncTable::new`, with the environment's answers as for the thread table. -/
def new (processes objects waits maxMetadataBytes requestedBytes retainedBytes : ℕ)
    (granted : Bool) : Except SyncError SyncTable := do
  rejectIf (processes = 0 ∨ objects < processes ∨ maxTasks < objects ∨ waits = 0 ∨
    maxTasks < waits) .invalidLimit
  rejectIf (maxMetadataBytes < requestedBytes) .metadataBudget
  rejectIf (granted = false) .metadataExhausted
  rejectIf (maxMetadataBytes < retainedBytes) .metadataBudget
  return { processes := List.replicate processes none, objects := GenSlab.empty objects,
           waits := List.replicate waits none, lastNow := 0 }

/-! ## Lookup -/

variable (self : SyncTable) (owner : ProcessId)

/-- `process`. -/
def process : Except SyncError SyncProcess :=
  okOr ((self.processes.filterMap id).find? (·.id = owner)) .unknownProcess

/-- The object a handle names, when its slot still holds it. -/
def find (id : ObjectId) : Option Object :=
  (self.objects.value id.slot).filter (·.id = id)

/-- `object`. -/
def object (id : ObjectId) : Except SyncError Object := do
  rejectIf (id.process ≠ owner) .wrongOwner
  okOr (self.find id) .stale

/-- The waiter in a slot. -/
def waiter (index : ℕ) : Option Waiter := slotAt self.waits index

/-- The retained waiters. -/
def waiters : List Waiter := self.waits.filterMap id

/-- `wait_index`. -/
def waitIndex (token : SyncWait) : Except SyncError ℕ := do
  rejectIf (token.thread.process ≠ owner) .wrongOwner
  okOr (self.waits.findIdx? fun waiter => waiter.any (·.token = token)) .stale

/-- `usage`: live objects and retained waits of a process. -/
def usage : ℕ × ℕ :=
  ((self.objects.filter fun slot => slot.value.any (·.id.process = owner)).length,
    (self.waiters.filter (·.token.thread.process = owner)).length)

/-- `require_owner`. -/
def requireOwner (caller : ThreadId) (mutex : MutexId) : Except SyncError Unit := do
  let object ← self.object owner mutex.object
  match object.kind with
  | .mutex (some holder) _ _ => rejectIf (holder ≠ caller) .notOwner
  | _ => .error .notOwner

end SyncTable

namespace SyncState

/-! ## Access -/

/-- A lookup in the thread table. -/
def ofThread {α : Type} (x : Except ThreadError α) : SyncAct α := .ofExcept (x.mapError .thread)

/-- An operation of the thread table. -/
def onThreads {α : Type} (x : ThreadAct α) : SyncAct α := fun s =>
  match x s.threads with
  | (.ok a, threads) => (.ok a, { s with threads })
  | (.error e, threads) => (.error (.thread e), { s with threads })

/-- Append to the history. -/
def emit (event : SyncEvent) : SyncAct Unit :=
  .modify fun s => { s with history := s.history ++ [event] }

/-- `self.waits[index].ok_or(SyncError::Stale)?`. -/
def waiter (index : ℕ) : SyncAct Waiter := do
  let s ← .get
  .okOr (s.sync.waiter index) .stale

variable (object : ObjectId) (owner : ProcessId) (caller : ThreadId) (permit : PermitId)
  (mutex : MutexId) (now index : ℕ) (w : Waiter)

/-- A write to an occupied wait slot. -/
def updateWaiter (f : Waiter → Waiter) : SyncAct Unit := do
  let w ← waiter index
  .modify fun s =>
    { s with sync := { s.sync with waits := s.sync.waits.set index (some (f w)) } }

/-- A write through `object_mut`. -/
def updateObject (id : ObjectId) (f : Object → Object) : SyncAct Unit := do
  let s ← .get
  let object ← .okOr (s.sync.find id) .stale
  .modify fun s =>
    { s with sync := { s.sync with objects := s.sync.objects.put id.slot (some (f object)) } }

/-- `active`. -/
def active : SyncAct Unit := do
  let s ← .get
  let _ ← .ofExcept (s.sync.process owner)
  let process ← ofThread (s.threads.process owner)
  .reject (process.stopping = true) (.thread .stopping)

/-- `caller`. -/
def requireCaller : SyncAct Unit := do
  active owner
  let s ← .get
  ofThread (s.threads.requireRunning owner caller)

/-- `clock`. -/
def clock : SyncAct Unit := do
  let s ← .get
  .reject (now < s.sync.lastNow) .clockRegressed
  .modify fun s => { s with sync := { s.sync with lastNow := now } }

/-- `due`. -/
def due (threads : ThreadTable) (caller : ThreadId) (options : WaitOptions) (now : ℕ) :
    Except SyncError (Option SyncOutcome) :=
  if options.deadline.any (· ≤ now) then .ok (some .timedOut)
  else if options.observeStop then do
    let record ← (threads.record caller.process caller).mapError .thread
    return if record.snapshot.stopRequested then some .stopped else none
  else .ok none

/-- `early`. -/
def early (threads : ThreadTable) (caller : ThreadId) (mode : WaitMode) (now : ℕ) :
    Except SyncError (Option SyncOutcome) :=
  match mode with
  | .try => .ok none
  | .wait options => due threads caller options now

/-! ## Queues -/

/-- The link of `push` into the queue: the old tail's successor, or the head. -/
def linkTail (tail : Option ℕ) (index : ℕ) : SyncAct Unit :=
  match tail with
  | some tail => updateWaiter tail fun w => { w with next := some index }
  | none => updateObject object fun o => { o with queue := { o.queue with head := some index } }

/-- `push`. -/
def push : SyncAct Unit := do
  let w ← waiter index
  .reject (w.queuedOn.isSome = true) .busy
  let s ← .get
  let target ← .okOr (s.sync.find object) .stale
  let tail := target.queue.tail
  linkTail object tail index
  updateObject object fun o => { o with queue := { o.queue with tail := some index } }
  updateWaiter index fun w => { w with queuedOn := some object, previous := tail, next := none }
  emit (.queued object w.token)

/-- The first write of `unlink`: the successor of the predecessor, or the head. -/
def unlinkPrevious : SyncAct Unit :=
  match w.previous with
  | some previous => updateWaiter previous fun v => { v with next := w.next }
  | none => updateObject object fun o => { o with queue := { o.queue with head := w.next } }

/-- The second write of `unlink`: the predecessor of the successor, or the tail. -/
def unlinkNext : SyncAct Unit :=
  match w.next with
  | some next => updateWaiter next fun v => { v with previous := w.previous }
  | none => updateObject object fun o => { o with queue := { o.queue with tail := w.previous } }

/-- `unlink`. -/
def unlink : SyncAct Unit := do
  let w ← waiter index
  .reject (w.queuedOn ≠ some object) .stale
  unlinkPrevious object w
  unlinkNext object w
  updateWaiter index fun w => { w with queuedOn := none, previous := none, next := none }

/-- `pop`. -/
def pop : SyncAct (Option ℕ) := do
  let s ← .get
  let target ← .okOr (s.sync.find object) .stale
  match target.queue.head with
  | some index => do
    unlink object index
    return some index
  | none => return none

/-! ## Ownership and completion -/

/-- The counter of a mutex owner that `set_owner` changes, if there is one. -/
def updateOwned (thread : Option ThreadId) (f : ℕ → ℕ) : SyncAct Unit :=
  match thread with
  | some thread => onThreads (updateRecord thread.process thread fun r =>
    { r with ownedMutexes := f r.ownedMutexes })
  | none => pure ()

/-- `set_owner`. -/
def setOwner (newOwner : Option ThreadId) : SyncAct Unit := do
  let s ← .get
  let object ← .okOr (s.sync.find mutex.object) .stale
  match object.kind with
  | .mutex owner poisoned policy => do
    updateOwned owner (· - 1)
    updateOwned newOwner (· + 1)
    updateObject mutex.object fun o => { o with kind := .mutex newOwner poisoned policy }
  | _ => .fail .stale

/-- `complete_wait`. -/
def completeWait (outcome : SyncOutcome) : SyncAct Unit := do
  let w ← waiter index
  let s ← .get
  let record ← ofThread (s.threads.record w.token.thread.process w.token.thread)
  .reject (record.syncWait = false ∨ record.snapshot.state ≠ .blocked ∨
    record.waitSequence ≠ w.token.sequence) .stale
  onThreads (updateRecord w.token.thread.process w.token.thread fun r =>
    { r with snapshot := { r.snapshot with state := .ready } })
  updateWaiter index fun w => { w with phase := .complete outcome, next := none }

/-- The end of `grant_mutex` for the waiter that gets the mutex. -/
def grantTo (outcome : SyncOutcome) : SyncAct Unit := do
  setOwner mutex (some w.token.thread)
  completeWait index outcome
  emit (.granted mutex.object w.token)

/-- The loop of `grant_mutex`. The queue is never longer than the wait slab, which is the fuel it
is given. -/
def grantLoop (mutex : MutexId) (poisoned : Bool) (now : ℕ) : ℕ → SyncAct Unit
  | 0 => .fail .stale
  | fuel + 1 => do
    match ← pop mutex.object with
    | none => return ()
    | some index => do
      let w ← waiter index
      if poisoned then do
        completeWait index .poisoned
        grantLoop mutex poisoned now fuel
      else
        match w.phase with
        | .reacquiring cause => grantTo mutex index w cause
        | _ => do
          let s ← .get
          match ← .ofExcept (due s.threads w.token.thread w.options now) with
          | some cause => do
            completeWait index cause
            grantLoop mutex poisoned now fuel
          | none => grantTo mutex index w .acquired

/-- `grant_mutex`. -/
def grantMutex : SyncAct Unit := do
  let s ← .get
  let object ← .ofExcept (s.sync.object mutex.object.process mutex.object)
  match object.kind with
  | .mutex owner poisoned _ =>
    if owner.isSome then return ()
    else grantLoop mutex poisoned now (s.sync.waits.length + 1)
  | _ => .fail .stale

/-- `reacquire`. -/
def reacquire (cause : SyncOutcome) (now : ℕ) : SyncAct Unit := do
  let w ← waiter index
  let mutex ← .okOr w.mutex .stale
  updateWaiter index fun w => { w with phase := .reacquiring cause }
  push mutex.object index
  grantMutex mutex now

/-- The queue a waiter is taken from when its mutex is poisoned. -/
def placeForPoison : ObjectId :=
  match w.phase with
  | .reacquiring _ => mutex.object
  | _ => w.source

/-- The body of the loop of `poison`. -/
def poisonWaiter : SyncAct Unit := do
  let s ← .get
  match s.sync.waiter index with
  | none => return ()
  | some w =>
    match w.phase with
    | .complete _ => return ()
    | _ =>
      if w.references mutex.object = false then return ()
      else do
        unlink (placeForPoison mutex w) index
        completeWait index .poisoned

/-- `poison`. -/
def poison : SyncAct Unit := do
  setOwner mutex none
  let s ← .get
  let object ← .okOr (s.sync.find mutex.object) .stale
  match object.kind with
  | .mutex owner _ policy => do
    updateObject mutex.object fun o => { o with kind := .mutex owner true policy }
    emit (.retired mutex.object)
    let s ← .get
    .forEach (List.range s.sync.waits.length) (poisonWaiter mutex)
  | _ => .fail .stale

/-- `admit`. -/
def admitWait (source : ObjectId) (mutex : Option MutexId) (options : WaitOptions) :
    SyncAct SyncWait := do
  let s ← .get
  let process ← .ofExcept (s.sync.process caller.process)
  .reject (process.quota.waits ≤ (s.sync.usage caller.process).2) .exhausted
  let index ← .okOr (s.sync.waits.findIdx? Option.isNone) .exhausted
  let token ← onThreads (ThreadTable.block caller.process caller)
  onThreads (updateRecord caller.process caller fun r => { r with syncWait := true })
  .modify fun s => { s with sync := { s.sync with
    waits := s.sync.waits.set index (some { token, source, mutex, phase := .queued, options,
                                            queuedOn := none, previous := none, next := none }) } }
  push source index
  emit (.waits token source mutex)
  return token

/-- `wait_or_try`. -/
def waitOrTry (source : ObjectId) (mutex : Option MutexId) (mode : WaitMode) : SyncAct SyncStart :=
  match mode with
  | .try => return .complete .wouldBlock
  | .wait options => do return .waiting (← admitWait caller source mutex options)

/-! ## Objects -/

/-- `register_process`. -/
def registerProcess (quota : SyncQuota) : SyncAct Unit := do
  let s ← .get
  let process ← ofThread (s.threads.process owner)
  .reject (process.stopping = true) (.thread .stopping)
  .reject (process.syncRegistered ∨ (s.sync.processes.filterMap id).any (·.id = owner))
    .duplicateProcess
  .reject (quota.objects = 0 ∨ s.sync.objects.length < quota.objects ∨
    s.sync.waits.length < quota.waits ∨ process.quota.records < quota.waits) .invalidLimit
  let slot ← .okOr (s.sync.processes.findIdx? Option.isNone) .exhausted
  .modify fun s => { s with sync := { s.sync with
    processes := s.sync.processes.set slot (some { id := owner, quota }) } }
  onThreads (updateProcess owner fun p => { p with syncRegistered := true })

/-- Forget the registration of a process. -/
def forgetProcess : SyncAct Unit :=
  .modify fun s => { s with sync := { s.sync with
    processes := s.sync.processes.map fun p => if p.any (·.id = owner) then none else p } }

/-- `remove_process`. -/
def removeProcess : SyncAct Unit := do
  let s ← .get
  let _ ← .ofExcept (s.sync.process owner)
  .reject (s.sync.usage owner ≠ (0, 0)) .busy
  onThreads (updateProcess owner fun p => { p with syncRegistered := false })
  forgetProcess owner

/-- `create`. -/
def create (kind : Kind) : SyncAct ObjectId := do
  requireCaller owner caller
  let s ← .get
  let process ← .ofExcept (s.sync.process owner)
  .reject (process.quota.objects ≤ (s.sync.usage owner).1) .exhausted
  let index ← .okOr (s.sync.objects.firstFree maxGeneration) .exhausted
  let id : ObjectId :=
    { process := owner, slot := index, generation := s.sync.objects.generation index + 1 }
  .modify fun s => { s with sync := { s.sync with
    objects := s.sync.objects.occupy index { id, kind, queue := { head := none, tail := none } } } }
  emit (.created id kind)
  onThreads (updateProcess owner fun p => { p with syncObjects := p.syncObjects + 1 })
  return id

/-- `create_mutex`. -/
def createMutex (policy : OwnerDeath) : SyncAct MutexId := do
  return { object := ← create owner caller (.mutex none false policy) }

/-- `create_condition`. -/
def createCondition : SyncAct ConditionId := do
  return { object := ← create owner caller .condition }

/-- `create_permit`. -/
def createPermit (initial maximum : ℕ) : SyncAct PermitId := do
  .reject (maximum = 0 ∨ maximum < initial) .invalidLimit
  return { object := ← create owner caller (.permit initial maximum) }

/-- Whether `destroy` refuses to take the object away. -/
def Object.isHeld (object : Object) : Bool :=
  match object.kind with
  | .mutex owner _ _ => owner.isSome
  | _ => false

/-- `destroy`, which the three kinds share. -/
def destroy (id : ObjectId) : SyncAct Unit := do
  requireCaller owner caller
  let s ← .get
  let object ← .ofExcept (s.sync.object owner id)
  .reject (Object.isHeld object ∨ s.sync.waiters.any (·.references id)) .busy
  .modify fun s => { s with sync := { s.sync with objects := s.sync.objects.put id.slot none } }
  onThreads (updateProcess owner fun p => { p with syncObjects := p.syncObjects - 1 })

/-! ## Operations -/

/-- `lock`. -/
def lock (mode : WaitMode) (now : ℕ) : SyncAct SyncStart := do
  requireCaller owner caller
  let s ← .get
  let object ← .ofExcept (s.sync.object owner mutex.object)
  match object.kind with
  | .mutex holder poisoned _ => do
    .reject (holder = some caller) .deadlock
    clock now
    match ← .ofExcept (early s.threads caller mode now) with
    | some outcome => return .complete outcome
    | none =>
      if poisoned then return .complete .poisoned
      else if holder.isNone then do
        setOwner mutex (some caller)
        return .complete .acquired
      else waitOrTry caller mutex.object none mode
  | _ => .fail .stale

/-- `unlock`. -/
def unlock : SyncAct Unit := do
  requireCaller owner caller
  let s ← .get
  .ofExcept (s.sync.requireOwner owner caller mutex)
  clock now
  setOwner mutex none
  grantMutex mutex now

/-- `condition_wait`. -/
def conditionWait (request : ConditionWait) (now : ℕ) : SyncAct SyncStart := do
  requireCaller owner caller
  let s ← .get
  let _ ← .ofExcept (s.sync.object owner request.condition.object)
  .ofExcept (s.sync.requireOwner owner caller request.mutex)
  .reject (s.sync.waiters.any fun w => w.source = request.condition.object &&
    w.mutex ≠ some request.mutex) .differentMutex
  clock now
  match ← .ofExcept (due s.threads caller request.options now) with
  | some outcome => return .complete outcome
  | none => do
    let token ← admitWait caller request.condition.object (some request.mutex) request.options
    setOwner request.mutex none
    grantMutex request.mutex now
    return .waiting token

/-- The loop of `notify`, with the count so far. -/
def notifyLoop (condition : ConditionId) (all : Bool) (now : ℕ) : ℕ → ℕ → SyncAct ℕ
  | 0, _ => .fail .stale
  | fuel + 1, notified => do
    match ← pop condition.object with
    | none => return notified
    | some index => do
      let w ← waiter index
      let s ← .get
      let cause ← .ofExcept (due s.threads w.token.thread w.options now)
      reacquire index (cause.getD .notified) now
      if cause.isSome then notifyLoop condition all now fuel notified
      else if all then notifyLoop condition all now fuel (notified + 1)
      else return notified + 1

/-- `notify`. -/
def notify (condition : ConditionId) (all : Bool) (now : ℕ) : SyncAct ℕ := do
  requireCaller owner caller
  let s ← .get
  let _ ← .ofExcept (s.sync.object owner condition.object)
  clock now
  notifyLoop condition all now (s.sync.waits.length + 1) 0

/-- `acquire_permit`. -/
def acquirePermit (mode : WaitMode) (now : ℕ) : SyncAct SyncStart := do
  requireCaller owner caller
  let s ← .get
  let object ← .ofExcept (s.sync.object owner permit.object)
  match object.kind with
  | .permit count maximum => do
    clock now
    match ← .ofExcept (early s.threads caller mode now) with
    | some outcome => return .complete outcome
    | none =>
      if count ≠ 0 then do
        updateObject permit.object fun o => { o with kind := .permit (count - 1) maximum }
        emit (.taken permit.object)
        return .complete .acquired
      else waitOrTry caller permit.object none mode
  | _ => .fail .stale

/-- The checks the preflight of `release_permits` makes on one waiter. -/
def inconsistent (record : Record) : Bool :=
  w.source ≠ permit.object || w.queuedOn ≠ some permit.object || w.mutex.isSome ||
    w.phase ≠ .queued || !record.syncWait || record.snapshot.state ≠ .blocked ||
    record.waitSequence ≠ w.token.sequence

/-- The preflight walk of `release_permits`: how many permits are left for the counter. The fuel is
what `visited` leaves of the wait slab. -/
def preflight (s : SyncState) (owner : ProcessId) (permit : PermitId) (now : ℕ) :
    ℕ → ℕ → Option ℕ → Except SyncError ℕ
  | _, 0, _ => .ok 0
  | _, stored, none => .ok stored
  | 0, _ + 1, some _ => .error .stale
  | fuel + 1, stored + 1, some index => do
    let w ← okOr (s.sync.waiter index) .stale
    let record ← (s.threads.record owner w.token.thread).mapError .thread
    rejectIf (inconsistent permit w record = true) .stale
    let outcome ← due s.threads w.token.thread w.options now
    preflight s owner permit now fuel (if outcome.isNone then stored else stored + 1) w.next

/-- The granting loop of `release_permits`: what remains of the batch. -/
def releaseLoop (permit : PermitId) (now : ℕ) : ℕ → ℕ → SyncAct ℕ
  | _, 0 => return 0
  | 0, _ + 1 => .fail .stale
  | fuel + 1, remaining + 1 => do
    match ← pop permit.object with
    | none => return remaining + 1
    | some index => do
      let w ← waiter index
      let s ← .get
      match ← .ofExcept (due s.threads w.token.thread w.options now) with
      | some outcome => do
        completeWait index outcome
        releaseLoop permit now fuel (remaining + 1)
      | none => do
        completeWait index .acquired
        emit (.granted permit.object w.token)
        releaseLoop permit now fuel remaining

/-- `release_permits`. -/
def releasePermits (release now : ℕ) : SyncAct Unit := do
  requireCaller owner caller
  .reject (release = 0) .invalidLimit
  let s ← .get
  let object ← .ofExcept (s.sync.object owner permit.object)
  match object.kind with
  | .permit count maximum => do
    let stored ← .ofExcept
      (preflight s owner permit now s.sync.waits.length release object.queue.head)
    let room ← .okOr (checkedSub maximum count) .stale
    .reject (room < stored) .overflow
    let nextCount ← .okOr (checkedAdd 32 count stored) .overflow
    clock now
    let remaining ← releaseLoop permit now (s.sync.waits.length + 1) release
    .reject (remaining ≠ stored) .stale
    updateObject permit.object fun o => { o with kind := .permit nextCount maximum }
    emit (.released permit.object release)
  | _ => .fail .stale

/-- `release_permit`. -/
def releasePermit : SyncAct Unit :=
  releasePermits owner caller permit 1 now

/-- What `observe` does with a wait it has taken off its queue. -/
def settle (cause : SyncOutcome) (now : ℕ) : SyncAct Unit :=
  if w.mutex.isSome then reacquire index cause now else completeWait index cause

/-- `observe`. -/
def observe (token : SyncWait) (now : ℕ) : SyncAct Bool := do
  active owner
  let s ← .get
  let index ← .ofExcept (s.sync.waitIndex owner token)
  clock now
  let w ← waiter index
  if w.phase ≠ .queued then return false
  else do
    match ← .ofExcept (due s.threads token.thread w.options now) with
    | none => return false
    | some cause => do
      unlink w.source index
      settle index w cause now
      return true

/-- `finish_wait`. -/
def finishWait (token : SyncWait) : SyncAct SyncOutcome := do
  active owner
  .reject (caller ≠ token.thread) .notOwner
  let s ← .get
  let record ← ofThread (s.threads.record owner caller)
  .reject (record.snapshot.state ≠ .running) (.thread .invalidState)
  let index ← .ofExcept (s.sync.waitIndex owner token)
  let w ← waiter index
  match w.phase with
  | .complete outcome => do
    .modify fun s => { s with sync := { s.sync with waits := s.sync.waits.set index none } }
    onThreads (updateRecord owner caller fun r => { r with syncWait := false })
    return outcome
  | _ => .fail .busy

/-- A record after synchronization has forgotten its process. -/
def drainedRecord (r : Record) : Record := { r with syncWait := false, ownedMutexes := 0 }

/-- The pairing check of `stop_process`. -/
def requirePaired : SyncAct Unit := do
  let s ← .get
  let process ← ofThread (s.threads.process owner)
  if process.syncRegistered then do
    let _ ← .ofExcept (s.sync.process owner)
  else return ()

/-- The objects a process loses when it stops, for the history. -/
def departed (objects : GenSlab Object) : List ObjectId :=
  ((objects.filterMap GenSlot.value).filter (·.id.process = owner)).map Object.id

/-- `stop_process`. -/
def stopProcess (owner : ProcessId) : SyncAct Unit := do
  requirePaired owner
  onThreads (ThreadTable.stopProcess owner)
  .modify fun s =>
    { s with
      sync := { s.sync with
        waits := s.sync.waits.map fun w =>
          if w.any (·.token.thread.process = owner) then none else w,
        objects := s.sync.objects.map fun slot =>
          if slot.value.any (·.id.process = owner) then { slot with value := none } else slot },
      history := s.history ++ (departed owner s.sync.objects).map .retired }
  onThreads (ThreadTable.updateAll fun r =>
    if r.snapshot.id.process = owner then drainedRecord r else r)
  onThreads (updateProcess owner fun p => { p with syncObjects := 0 })
  onThreads (updateProcess owner fun p => { p with syncRegistered := false })
  forgetProcess owner

/-- Whether the mutex is owned by the thread, and with which policy. -/
def Object.ownedBy (object : Object) (caller : ThreadId) : Option OwnerDeath :=
  match object.kind with
  | .mutex (some holder) _ policy => if holder = caller then some policy else none
  | _ => none

/-- The body of the last loop of `begin_exit`. -/
def abandon : SyncAct Unit := do
  let s ← .get
  match s.sync.objects.value index with
  | none => return ()
  | some object =>
    if (Object.ownedBy object caller).isSome then poison { object := object.id } else return ()

/-- `begin_exit`. -/
def beginExit (owner : ProcessId) (caller : ThreadId) (now : ℕ) : SyncAct ExitEffect := do
  active owner
  let s ← .get
  let record ← ofThread (s.threads.record owner caller)
  .reject (record.controlWait = true) (.thread .busy)
  .reject (record.snapshot.state ≠ .running) (.thread .invalidState)
  clock now
  if (s.sync.objects.filterMap GenSlot.value).any
      (fun object => Object.ownedBy object caller = some .failProcess) then do
    stopProcess owner
    return .processStopped
  else do
    .modify fun s => { s with sync := { s.sync with
      waits := s.sync.waits.map fun w => if w.any (·.token.thread = caller) then none else w } }
    onThreads (updateRecord owner caller fun r => { r with syncWait := false })
    .forEach (List.range s.sync.objects.length) (abandon caller)
    onThreads (ThreadTable.beginExit owner caller)
    return .threadExiting

end SyncState

end Troe.Task
