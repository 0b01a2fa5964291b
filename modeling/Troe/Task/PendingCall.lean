import Troe.Task.Wait

/-!
# Copied pending calls (`troe-task::wait`)

A pending call keeps a copy of its request until it is finished. The buffer of a slot outlives the
call and is zeroed when the call goes.
-/

namespace Troe.Task

open Lib

/-- Largest number of retained calls. -/
def maxPendingCalls : ℕ := 65536

/-- Largest copied request. -/
def maxPendingRequestBytes : ℕ := 4096

inductive PendingCallState where
  | new
  | waiting (wait : WaitKey)
  | ready (reason : WakeReason)
deriving DecidableEq

/-- Metadata of one pending call. -/
structure PendingCallSnapshot where
  id : PendingOperationId
  owner : PendingCaller
  requestId : ℕ
  handle : ℕ
  opcode : ℕ
  requestBytes : ℕ
  replyCapacity : ℕ
  state : PendingCallState

inductive PendingCallError where
  | invalidCaller
  | invalidCapacity
  | metadataExhausted
  | capacityExhausted
  | byteCapacityExhausted
  | messageTooLarge
  | requestIdentityNotMonotonic
  | ownerAlreadyPending
  | staleOperation
  | invalidState
  | mismatchedWake
  | accountingOverflow

/-- Counters. -/
structure PendingCallStats where
  live : ℕ
  highWater : ℕ
  retainedBytes : ℕ
  retainedBytesHighWater : ℕ
  completed : ℕ
  terminalCompletions : ℕ
  zeroizedBytes : ℕ

/-- `PendingCallStats::default`. -/
def PendingCallStats.default : PendingCallStats := ⟨0, 0, 0, 0, 0, 0, 0⟩

/-- A slot with its request buffer. -/
abbrev PendingSlot : Type := KeySlot PendingCallSnapshot (List UInt8)

/-- `PendingSlot::empty`. -/
def PendingSlot.empty : PendingSlot where
  generation := 1
  retired := false
  record := none
  buffer := List.replicate maxPendingRequestBytes 0

/-- Table of pending calls. -/
structure PendingCallTable where
  slots : KeySlab PendingCallSnapshot (List UInt8)
  capacity : ℕ
  retainedByteCapacity : ℕ
  lastRequestId : ℕ
  stats : PendingCallStats

/-- An operation on the pending-call table. -/
abbrev PendingAct (α : Type) : Type := Act PendingCallTable PendingCallError α

/-- Copy to the front of a buffer. -/
def copyFront (request buffer : List UInt8) : List UInt8 := request ++ buffer.drop request.length

/-- Zero the front of a buffer. -/
def zeroFront (n : ℕ) (buffer : List UInt8) : List UInt8 := List.replicate n 0 ++ buffer.drop n

namespace PendingCallTable

/-- `PendingCallTable::new`. -/
def new (capacity retainedByteCapacity : ℕ) (granted : Bool) :
    Except PendingCallError PendingCallTable := do
  let maximumBytes ← okOr (checkedMul 64 capacity maxPendingRequestBytes) .invalidCapacity
  rejectIf (capacity = 0 ∨ maxPendingCalls < capacity ∨ maximumBytes < retainedByteCapacity ∨
    2 ^ 32 - 1 < retainedByteCapacity) .invalidCapacity
  rejectIf (granted = false) .metadataExhausted
  return { slots := [], capacity, retainedByteCapacity, lastRequestId := 0, stats := .default }

/-- The retained calls, in slot order. -/
def records (self : PendingCallTable) : List PendingCallSnapshot :=
  self.slots.filterMap KeySlot.record

/-- `validate_operation`. -/
def validateOperation (self : PendingCallTable) (operation : PendingOperationId) :
    Except PendingCallError ℕ := do
  rejectIf (self.slots[operation.slot]?.any (fun slot => slot.generation = operation.generation &&
    slot.record.any (·.id = operation)) = false) .staleOperation
  return operation.slot

/-- `record`. -/
def record (self : PendingCallTable) (operation : PendingOperationId) :
    Except PendingCallError PendingCallSnapshot := do
  let index ← self.validateOperation operation
  okOr (self.slots.record index) .staleOperation

variable (operation : PendingOperationId)

/-- Write the state of a call through `record_mut`. -/
def setState (record : PendingCallSnapshot) (state : PendingCallState) : PendingAct Unit :=
  .modify fun self => { self with
    slots := self.slots.modify operation.slot (KeySlot.store { record with state }) }

/-- The slot a new call goes to: the first free one, or one that is added. -/
def freeSlot (granted : Bool) : PendingAct ℕ := do
  let self ← .get
  match self.slots.vacancy with
  | some index => return index
  | none => do
    .reject (self.slots.length = self.capacity) .capacityExhausted
    .reject (granted = false) .metadataExhausted
    .modify fun self => { self with slots := self.slots ++ [PendingSlot.empty] }
    return self.slots.length

/-- The part of `begin_for` that writes the slot. -/
def retain (index : ℕ) (owner : PendingCaller) (requestId handle opcode : ℕ)
    (request : List UInt8) (replyCapacity retainedBytes : ℕ) : PendingAct PendingOperationId := do
  let self ← .get
  let live ← .okOr (checkedAdd 32 self.stats.live 1) .accountingOverflow
  .reject (2 ^ 32 ≤ index) .accountingOverflow
  let slot ← .okOr self.slots[index]? .accountingOverflow
  let id : PendingOperationId := { slot := index, generation := slot.generation }
  .modify fun self => { self with
    slots := self.slots.modify index fun slot =>
      { slot with buffer := copyFront request slot.buffer } }
  .reject (2 ^ 16 ≤ request.length) .accountingOverflow
  .reject (2 ^ 16 ≤ replyCapacity) .accountingOverflow
  .modify fun self => { self with
    slots := self.slots.modify index (KeySlot.store
      { id, owner, requestId, handle, opcode, requestBytes := request.length, replyCapacity,
        state := .new })
    lastRequestId := requestId
    stats := { self.stats with
      live, highWater := max self.stats.highWater live, retainedBytes,
      retainedBytesHighWater := max self.stats.retainedBytesHighWater retainedBytes } }
  return id

/-- `begin_for`. -/
def beginFor (owner : PendingCaller) (requestId handle opcode : ℕ) (request : List UInt8)
    (replyCapacity : ℕ) (granted : Bool) : PendingAct PendingOperationId := do
  .reject (maxPendingRequestBytes < request.length ∨ maxPendingRequestBytes < replyCapacity)
    .messageTooLarge
  let self ← .get
  .reject (requestId = 0 ∨ requestId ≤ self.lastRequestId) .requestIdentityNotMonotonic
  .reject (self.records.any (·.owner.conflicts owner)) .ownerAlreadyPending
  .reject (2 ^ 32 ≤ request.length) .accountingOverflow
  let retainedBytes ← .okOr (checkedAdd 32 self.stats.retainedBytes request.length)
    .accountingOverflow
  .reject (self.retainedByteCapacity < retainedBytes) .byteCapacityExhausted
  let index ← freeSlot granted
  retain index owner requestId handle opcode request replyCapacity retainedBytes

/-- `bind_wait`. -/
def bindWait (wait : WaitKey) : PendingAct Unit := do
  let self ← .get
  let record ← .ofExcept (self.record operation)
  .reject (record.state ≠ .new) .invalidState
  setState operation record (.waiting wait)

/-- `mark_ready`. -/
def markReady (reason : WakeReason) : PendingAct Unit := do
  let self ← .get
  let record ← .ofExcept (self.record operation)
  .reject (record.state ≠ .new) .invalidState
  setState operation record (.ready reason)

/-- `resolve`. -/
def resolve (completion : WaitCompletion) : PendingAct Unit := do
  let self ← .get
  let record ← .ofExcept (self.record completion.operation)
  .reject (record.owner ≠ completion.owner ∨ record.state ≠ .waiting completion.key) .mismatchedWake
  setState completion.operation record (.ready completion.reason)

/-- `release_index`. -/
def releaseIndex (index : ℕ) (record : PendingCallSnapshot) (terminal : Bool) :
    PendingAct Unit := do
  let self ← .get
  let live ← .okOr (checkedSub self.stats.live 1) .accountingOverflow
  let retainedBytes ← .okOr (checkedSub self.stats.retainedBytes record.requestBytes)
    .accountingOverflow
  let completed ← .okOr (checkedAdd 64 self.stats.completed 1) .accountingOverflow
  let terminalCompletions ← .okOr (if terminal then checkedAdd 64 self.stats.terminalCompletions 1
    else some self.stats.terminalCompletions) .accountingOverflow
  let zeroizedBytes ← .okOr (checkedAdd 64 self.stats.zeroizedBytes record.requestBytes)
    .accountingOverflow
  .modify fun self => { self with
    slots := self.slots.modify index fun slot =>
      ({ slot with buffer := zeroFront record.requestBytes slot.buffer }).vacate maxGeneration
    stats := { self.stats with live, retainedBytes, completed, terminalCompletions, zeroizedBytes } }

/-- The reason of a call that is ready. -/
def readyReason : PendingCallState → Option WakeReason
  | .ready reason => some reason
  | .new | .waiting _ => none

/-- `finish`. -/
def finish : PendingAct PendingCallSnapshot := do
  let self ← .get
  let index ← .ofExcept (self.validateOperation operation)
  let record ← .okOr (self.slots.record index) .staleOperation
  let reason ← .okOr (readyReason record.state) .invalidState
  releaseIndex index record reason.isTerminal
  return record

/-- Number and request bytes of the calls of a task, as `teardown_owner` counts them. -/
def countOwner (owner : TaskId) (records : List PendingCallSnapshot) (matching bytes : ℕ) :
    Except PendingCallError (ℕ × ℕ) :=
  match records with
  | [] => .ok (matching, bytes)
  | record :: records =>
    if record.owner.task = owner then do
      let matching ← okOr (checkedAdd 32 matching 1) .accountingOverflow
      let bytes ← okOr (checkedAdd 32 bytes record.requestBytes) .accountingOverflow
      countOwner owner records matching bytes
    else countOwner owner records matching bytes

/-- The body of the loop of `teardown_owner`. -/
def teardownIf (owner : TaskId) (index : ℕ) : PendingAct Unit := do
  let self ← .get
  match self.slots.record index with
  | none => return ()
  | some record =>
    if record.owner.task ≠ owner then return ()
    else releaseIndex index record true

/-- `teardown_owner`. -/
def teardownOwner (owner : TaskId) (reason : WakeReason) : PendingAct ℕ := do
  .reject (reason.isTerminal = false) .invalidState
  let self ← .get
  let (matching, bytes) ← .ofExcept (countOwner owner self.records 0 0)
  let _ ← .okOr (checkedSub self.stats.live matching) .accountingOverflow
  let _ ← .okOr (checkedSub self.stats.retainedBytes bytes) .accountingOverflow
  let _ ← .okOr (checkedAdd 64 self.stats.completed matching) .accountingOverflow
  let _ ← .okOr (checkedAdd 64 self.stats.terminalCompletions matching) .accountingOverflow
  let _ ← .okOr (checkedAdd 64 self.stats.zeroizedBytes bytes) .accountingOverflow
  .forEach (List.range self.slots.length) (teardownIf owner)
  return matching

end PendingCallTable

end Troe.Task
