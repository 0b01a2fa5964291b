import Troe.Lib.KeySlab
import Troe.Task.Thread

/-!
# Wait registrations (`troe-task::wait`)

A wait is published in a slot and resolved once, by the first of eight operations that selects it.
Operations are `Act`s: what a call wrote before it left with an error stays written. Whether the
heap grants a reservation is the environment's choice and a parameter of the calls that reserve.

`history` is not part of the source: it records what is published and what is resolved.
-/

namespace Troe.Task

open Lib

/-- Largest number of published waits. -/
def maxWaitRegistrations : ℕ := 65536

abbrev TaskId : Type := ℕ

/-- Identity of one published wait. -/
structure WaitKey where
  slot : ℕ
  generation : ℕ
deriving DecidableEq

/-- Identity of one copied pending call. -/
structure PendingOperationId where
  slot : ℕ
  generation : ℕ
deriving DecidableEq

/-- Resource observed by a wait. -/
structure WaitResource where
  identity : ℕ
  generation : ℕ
deriving DecidableEq

/-- Conditions selected by a wait. -/
structure WakeInterest where
  bits : BitVec 8

namespace WakeInterest

def resourceReady : WakeInterest := ⟨1⟩

def deadline : WakeInterest := ⟨2⟩

/-- `WakeInterest::contains`. -/
def contains (self requested : WakeInterest) : Bool := self.bits &&& requested.bits = requested.bits

end WakeInterest

/-- Why a wait became ready. -/
inductive WakeReason where
  | resourceReady
  | deadline
  | cancelled
  | closed
  | revoked
deriving DecidableEq

/-- `WakeReason::is_terminal`. -/
def WakeReason.isTerminal : WakeReason → Bool
  | cancelled | closed | revoked => true
  | resourceReady | deadline => false

/-- Resource state seen by the operation that may publish a wait. -/
inductive WaitObservation where
  | pending
  | resourceReady
  | resourceClosed
  | cancelled
  | ownerRevoked

/-- Identity of a task call or of one of its threads. -/
structure PendingCaller where
  task : TaskId
  thread : Option ThreadId
deriving DecidableEq

/-- `PendingCaller::conflicts`. -/
def PendingCaller.conflicts (self other : PendingCaller) : Bool :=
  self.task = other.task ∧
    (self.thread.isNone ∨ other.thread.isNone ∨ self.thread = other.thread)

inductive WaitError where
  | invalidCapacity
  | metadataExhausted
  | capacityExhausted
  | invalidResource
  | invalidSpec
  | ownerAlreadyWaiting
  | operationAlreadyWaiting
  | staleWait
  | unexpectedWake
  | accountingOverflow

/-- `WaitResource::new`. -/
def WaitResource.new (identity generation : ℕ) : Except WaitError WaitResource := do
  rejectIf (identity = 0 ∨ generation = 0) .invalidResource
  return { identity, generation }

/-- What is needed to publish a wait. -/
structure WaitSpec where
  owner : PendingCaller
  operation : PendingOperationId
  resource : Option WaitResource
  interests : WakeInterest
  deadline : Option ℕ

namespace WaitSpec

/-- `WaitSpec::new_for`. -/
def newFor (owner : PendingCaller) (operation : PendingOperationId)
    (resource : Option WaitResource) (interests : WakeInterest) (deadline : Option ℕ) :
    Except WaitError WaitSpec := do
  rejectIf (interests.bits = 0 ∨ interests.contains .resourceReady ∧ resource.isNone ∨
    interests.contains .deadline ∧ deadline.isNone) .invalidSpec
  return { owner, operation, resource, interests, deadline }

/-- `WaitSpec::accepts`. -/
def accepts (self : WaitSpec) : WakeReason → Bool
  | .resourceReady => self.resource.isSome && self.interests.contains .resourceReady
  | .deadline => self.deadline.isSome && self.interests.contains .deadline
  | .cancelled | .revoked => true
  | .closed => self.resource.isSome

/-- The reason an observation gives, if it gives one. -/
def observed (self : WaitSpec) (observation : WaitObservation) (now : ℕ) : Option WakeReason :=
  match observation with
  | .pending => (self.deadline.filter (· ≤ now)).map fun _ => .deadline
  | .resourceReady => some .resourceReady
  | .resourceClosed => some .closed
  | .cancelled => some .cancelled
  | .ownerRevoked => some .revoked

end WaitSpec

/-- Answer of `register`. -/
inductive WaitRegistration where
  | ready (reason : WakeReason)
  | blocked (key : WaitKey)

/-- A wait that was taken from the table. -/
structure WaitCompletion where
  key : WaitKey
  owner : PendingCaller
  operation : PendingOperationId
  reason : WakeReason

/-- Counters. -/
structure WaitStats where
  live : ℕ
  highWater : ℕ
  wakes : ℕ
  immediateWakes : ℕ
  resourceWakes : ℕ
  timeouts : ℕ
  cancellations : ℕ
  closes : ℕ
  revocations : ℕ
  staleWakes : ℕ

namespace WaitStats

/-- `WaitStats::default`. -/
def default : WaitStats := ⟨0, 0, 0, 0, 0, 0, 0, 0, 0, 0⟩

/-- The counter of a reason. -/
def counter (self : WaitStats) : WakeReason → ℕ
  | .resourceReady => self.resourceWakes
  | .deadline => self.timeouts
  | .cancelled => self.cancellations
  | .closed => self.closes
  | .revoked => self.revocations

/-- Write the counter of a reason. -/
def setCounter (self : WaitStats) (reason : WakeReason) (n : ℕ) : WaitStats :=
  match reason with
  | .resourceReady => { self with resourceWakes := n }
  | .deadline => { self with timeouts := n }
  | .cancelled => { self with cancellations := n }
  | .closed => { self with closes := n }
  | .revoked => { self with revocations := n }

end WaitStats

/-- A published wait. -/
structure WaitRecord where
  key : WaitKey
  spec : WaitSpec

abbrev WaitSlot : Type := KeySlot WaitRecord Unit

/-- What happens to waits. -/
inductive WaitEvent where
  | published (key : WaitKey) (spec : WaitSpec)
  | resolved (key : WaitKey) (spec : WaitSpec) (reason : WakeReason)

/-- Table of published waits. -/
structure WaitTable where
  slots : KeySlab WaitRecord Unit
  capacity : ℕ
  stats : WaitStats
  history : List WaitEvent

/-- An operation on the wait table. -/
abbrev WaitAct (α : Type) : Type := Act WaitTable WaitError α

namespace WaitTable

/-- `WaitTable::new`. -/
def new (capacity : ℕ) (granted : Bool) : Except WaitError WaitTable := do
  rejectIf (capacity = 0 ∨ maxWaitRegistrations < capacity) .invalidCapacity
  rejectIf (granted = false) .metadataExhausted
  return { slots := [], capacity, stats := .default, history := [] }

/-- The published waits, in slot order. -/
def records (self : WaitTable) : List WaitRecord := self.slots.filterMap KeySlot.record

/-- The slot of the first published wait that satisfies `p`. -/
def position (self : WaitTable) (p : WaitRecord → Bool) : Option ℕ :=
  self.slots.findIdx? fun slot => slot.record.any p

/-- `record_reason`. -/
def recordReason (reason : WakeReason) (immediate : Bool) : WaitAct Unit := do
  let self ← .get
  let immediateWakes ← .okOr (if immediate then checkedAdd 64 self.stats.immediateWakes 1
    else some self.stats.immediateWakes) .accountingOverflow
  let wakes ← .okOr (if immediate then some self.stats.wakes
    else checkedAdd 64 self.stats.wakes 1) .accountingOverflow
  let counter ← .okOr (checkedAdd 64 (self.stats.counter reason) 1) .accountingOverflow
  .modify fun self => { self with
    stats := { self.stats with immediateWakes, wakes }.setCounter reason counter }

/-- `resolve_index`. -/
def resolveIndex (index : ℕ) (reason : WakeReason) : WaitAct WaitCompletion := do
  let self ← .get
  let record ← .okOr (self.slots.record index) .staleWait
  let live ← .okOr (checkedSub self.stats.live 1) .accountingOverflow
  recordReason reason false
  .modify fun self => { self with
    slots := self.slots.modify index (KeySlot.vacate maxGeneration)
    stats := { self.stats with live }
    history := self.history ++ [.resolved record.key record.spec reason] }
  return { key := record.key, owner := record.spec.owner, operation := record.spec.operation, reason }

/-- Count a stale wake. -/
def countStale : WaitAct Unit := do
  let self ← .get
  let staleWakes ← .okOr (checkedAdd 64 self.stats.staleWakes 1) .accountingOverflow
  .modify fun self => { self with stats := { self.stats with staleWakes } }

/-- `validate_key`. -/
def validateKey (key : WaitKey) : WaitAct ℕ := do
  let self ← .get
  if self.slots[key.slot]?.any (fun slot => slot.generation = key.generation &&
      slot.record.any (·.key = key)) then
    return key.slot
  else do
    countStale
    .fail .staleWait

/-- The slot a new wait goes to: the first free one, or one that is added. -/
def freeSlot (granted : Bool) : WaitAct ℕ := do
  let self ← .get
  match self.slots.vacancy with
  | some index => return index
  | none => do
    .reject (self.slots.length = self.capacity) .capacityExhausted
    .reject (granted = false) .metadataExhausted
    .modify fun self => { self with
      slots := self.slots ++ [{ generation := 1, retired := false, record := none, buffer := () }] }
    return self.slots.length

/-- The part of `register` that publishes the wait. -/
def publish (spec : WaitSpec) (granted : Bool) : WaitAct WaitRegistration := do
  let index ← freeSlot granted
  .reject (2 ^ 32 ≤ index) .accountingOverflow
  let self ← .get
  let slot ← .okOr self.slots[index]? .accountingOverflow
  let key : WaitKey := { slot := index, generation := slot.generation }
  let live ← .okOr (checkedAdd 32 self.stats.live 1) .accountingOverflow
  .modify fun self => { self with
    slots := self.slots.modify index (KeySlot.store { key, spec })
    stats := { self.stats with live, highWater := max self.stats.highWater live }
    history := self.history ++ [.published key spec] }
  return .blocked key

/-- The part of `register` that consumes a condition that is already there. -/
def consume (spec : WaitSpec) (reason : WakeReason) : WaitAct WaitRegistration := do
  .reject (spec.accepts reason = false) .unexpectedWake
  recordReason reason true
  return .ready reason

/-- `register`. -/
def register (spec : WaitSpec) (observation : WaitObservation) (now : ℕ) (granted : Bool) :
    WaitAct WaitRegistration := do
  let self ← .get
  .reject (self.records.any (·.spec.owner.conflicts spec.owner)) .ownerAlreadyWaiting
  .reject (self.records.any (·.spec.operation = spec.operation)) .operationAlreadyWaiting
  match spec.observed observation now with
  | some reason => consume spec reason
  | none => publish spec granted

/-- `wake`. -/
def wake (key : WaitKey) (reason : WakeReason) : WaitAct WaitCompletion := do
  let index ← validateKey key
  let self ← .get
  let record ← .okOr (self.slots.record index) .staleWait
  .reject (record.spec.accepts reason = false) .unexpectedWake
  resolveIndex index reason

/-- `WakeBatch::push`; `grants n` tells whether the heap grants room for completion `n`. -/
def push (grants : ℕ → Bool) (batch : List WaitCompletion) (completion : WaitCompletion) :
    WaitAct (List WaitCompletion) := do
  .reject (grants batch.length = false) .metadataExhausted
  return batch ++ [completion]

/-- The body of the loops that resolve every wait that satisfies `p`. -/
def resolveIf (p : WaitRecord → Bool) (reason : WakeReason) (grants : ℕ → Bool)
    (batch : List WaitCompletion) (index : ℕ) : WaitAct (List WaitCompletion) := do
  let self ← .get
  if (self.slots.record index).any p then do
    let completion ← resolveIndex index reason
    push grants batch completion
  else return batch

/-- The loops that resolve every wait that satisfies `p`. -/
def resolveAll (p : WaitRecord → Bool) (reason : WakeReason) (grants : ℕ → Bool) :
    WaitAct (List WaitCompletion) := do
  let self ← .get
  .forFold (List.range self.slots.length) [] (resolveIf p reason grants)

/-- `wake_resource`. -/
def wakeResource (resource : WaitResource) (reason : WakeReason) (grants : ℕ → Bool) :
    WaitAct (List WaitCompletion) := do
  .reject (reason ≠ .resourceReady ∧ reason ≠ .closed) .unexpectedWake
  let self ← .get
  let staleGeneration := self.records.any fun record => record.spec.resource.any fun retained =>
    retained.identity = resource.identity && retained.generation ≠ resource.generation
  let batch ← resolveAll (fun record => record.spec.resource = some resource &&
    record.spec.accepts reason) reason grants
  if batch.isEmpty && staleGeneration then do
    countStale
    return batch
  else return batch

/-- `observe_operation`. -/
def observeOperation (operation : PendingOperationId) (resource : Option WaitResource)
    (observation : WaitObservation) (now : ℕ) : WaitAct (Option WaitCompletion) := do
  let self ← .get
  let index ← .okOr (self.position (·.spec.operation = operation)) .staleWait
  let record ← .okOr (self.slots.record index) .staleWait
  .reject (resource ≠ record.spec.resource) .invalidResource
  match record.spec.observed observation now with
  | none => return none
  | some reason => do
    .reject (record.spec.accepts reason = false) .unexpectedWake
    return some (← resolveIndex index reason)

/-- `expire`. -/
def expire (now : ℕ) (grants : ℕ → Bool) : WaitAct (List WaitCompletion) :=
  resolveAll (fun record => record.spec.interests.contains .deadline &&
    record.spec.deadline.any (· ≤ now)) .deadline grants

/-- `cancel_operation`. -/
def cancelOperation (operation : PendingOperationId) (reason : WakeReason) :
    WaitAct (Option WaitCompletion) := do
  .reject (reason.isTerminal = false) .unexpectedWake
  let self ← .get
  match self.position (·.spec.operation = operation) with
  | none => return none
  | some index => return some (← resolveIndex index reason)

/-- The body of the loop of `discard_owner`. -/
def discardIf (owner : TaskId) (reason : WakeReason) (removed index : ℕ) : WaitAct ℕ := do
  let self ← .get
  if (self.slots.record index).any (·.spec.owner.task = owner) then do
    let _ ← resolveIndex index reason
    return removed + 1
  else return removed

/-- `discard_owner`. -/
def discardOwner (owner : TaskId) (reason : WakeReason) : WaitAct ℕ := do
  .reject (reason ≠ .cancelled ∧ reason ≠ .revoked) .unexpectedWake
  let self ← .get
  .forFold (List.range self.slots.length) 0 (discardIf owner reason)

/-- `cancel_owner`. -/
def cancelOwner (owner : TaskId) (reason : WakeReason) (grants : ℕ → Bool) :
    WaitAct (List WaitCompletion) := do
  .reject (reason ≠ .cancelled ∧ reason ≠ .revoked) .unexpectedWake
  let self ← .get
  match self.position (·.spec.owner.task = owner) with
  | none => return []
  | some index => do
    let completion ← resolveIndex index reason
    push grants [] completion

end WaitTable

end Troe.Task
