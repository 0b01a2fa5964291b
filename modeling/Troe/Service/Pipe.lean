import Troe.Lib.Act
import Troe.Lib.Checked
import Troe.Lib.Slab

/-!
# Byte pipes (`troe-process`)

A pipe is a bounded queue of bytes. Its owner holds one end in each direction and may attach further
ends; the pipe goes when no end is left, and the generation of its slot goes on, so that its token
names nothing any more. Whether the heap grants a reservation is the environment's choice and a
parameter of the call that reserves.
-/

namespace Troe.Process

open Lib
open Act (get modify ofExcept okOr reject)

/-- `MAX_PIPES_PER_OWNER`. -/
def maxPipesPerOwner : ℕ := 65536

/-- `MAX_PIPE_BYTES_PER_OWNER`. -/
def maxPipeBytesPerOwner : ℕ := 256 * 1024 * 1024

/-- `pipe::MIN_CAPACITY`. -/
def minCapacity : ℕ := 4 * 1024

/-- `pipe::MAX_CAPACITY`. -/
def maxCapacity : ℕ := 1024 * 1024

/-- Why a call was rejected. -/
inductive ProcessError where
  | invalidCapacity
  | metadataExhausted
  | capacityExhausted
  | invalidToken
  | foreignOwner
  | generationExhausted
  | invalidState
  | accountingOverflow
  | invalidMessage
  | wouldBlock
  | closed
deriving DecidableEq

/-- Identity of an owner. -/
abbrev OwnerId : Type := ℕ

/-- A token: the generation in the upper 32 bits, and one more than the slot in the lower. -/
abbrev PipeToken : Type := ℕ

/-- Direction granted to one endpoint. -/
inductive PipeDirection where
  | reader
  | writer
deriving DecidableEq

/-- One endpoint that the kernel holds. -/
structure PipeEndpoint where
  token : PipeToken
  direction : PipeDirection
deriving DecidableEq

/-- `encode_token`. -/
def encodeToken (index generation : ℕ) : Except ProcessError PipeToken := do
  rejectIf (2 ^ 32 ≤ index) .invalidToken
  let slot ← okOr (checkedAdd 32 index 1) .invalidToken
  rejectIf (generation = 0) .invalidToken
  return generation * 2 ^ 32 + slot

/-- `decode_token`. -/
def decodeToken (value capacity : ℕ) : Except ProcessError (ℕ × ℕ) := do
  let encodedSlot := value % 2 ^ 32
  let generation := value / 2 ^ 32
  rejectIf (encodedSlot = 0 ∨ capacity < encodedSlot ∨ generation = 0) .invalidToken
  rejectIf (2 ^ 32 ≤ generation) .invalidToken
  return (encodedSlot - 1, generation)

/-! ## One pipe -/

/-- The state of one pipe. -/
structure PipeRecord where
  owner : OwnerId
  capacity : ℕ
  bytes : List UInt8
  ownerReaderOpen : Bool
  ownerWriterOpen : Bool
  attachedReaders : ℕ
  attachedWriters : ℕ
deriving DecidableEq

namespace PipeRecord

variable (record : PipeRecord)

/-- `readers`. The sum is one of 32-bit numbers. -/
def readers : ℕ := (record.ownerReaderOpen.toNat + record.attachedReaders) % 2 ^ 32

/-- `writers`. The sum is one of 32-bit numbers. -/
def writers : ℕ := (record.ownerWriterOpen.toNat + record.attachedWriters) % 2 ^ 32

/-- `removable`. -/
def removable : Bool := record.readers = 0 && record.writers = 0

/-- Whether the owner's end in a direction is open. -/
def ownerOpen : PipeDirection → Bool
  | .reader => record.ownerReaderOpen
  | .writer => record.ownerWriterOpen

/-- The number of attached ends in a direction. -/
def attached : PipeDirection → ℕ
  | .reader => record.attachedReaders
  | .writer => record.attachedWriters

/-- The pipe with another number of attached ends. -/
def setAttached (count : ℕ) : PipeDirection → PipeRecord
  | .reader => { record with attachedReaders := count }
  | .writer => { record with attachedWriters := count }

/-- The pipe with the owner's end closed. -/
def closeOwner : PipeDirection → PipeRecord
  | .reader => { record with ownerReaderOpen := false }
  | .writer => { record with ownerWriterOpen := false }

/-- `write_pipe`: the pipe with the bytes in it. -/
def writePipe (bytes : List UInt8) : Except ProcessError PipeRecord := do
  rejectIf (bytes = []) .invalidMessage
  rejectIf (record.capacity - record.bytes.length < bytes.length) .wouldBlock
  return { record with bytes := record.bytes ++ bytes }

/-- `read_pipe`, into `size` bytes: the bytes read, none at the end of file, and the pipe then. -/
def readPipe (size : ℕ) : Except ProcessError (List UInt8 × PipeRecord) := do
  rejectIf (size = 0) .invalidMessage
  if record.bytes = [] then
    if record.writers = 0 then return ([], record) else .error .wouldBlock
  else
    return (record.bytes.take size, { record with bytes := record.bytes.drop size })

end PipeRecord

/-! ## The table -/

/-- Bounded table of the pipes of one owner capability. -/
structure PipeTable where
  slots : GenSlab PipeRecord
  capacity : ℕ
  reservedBytes : ℕ
deriving DecidableEq

/-- An operation on the table. -/
abbrev PipeAct (α : Type) : Type := Act PipeTable ProcessError α

namespace PipeTable

/-- `PipeTable::new`. -/
def new (capacity : ℕ) : Except ProcessError PipeTable := do
  rejectIf (capacity = 0 ∨ maxPipesPerOwner < capacity) .invalidCapacity
  return { slots := [], capacity, reservedBytes := 0 }

/-- `endpoint_record_mut`: the slot and the pipe of a token. -/
def endpointRecord (table : PipeTable) (token : PipeToken) :
    Except ProcessError (ℕ × PipeRecord) := do
  let (index, generation) ← decodeToken token table.capacity
  let slot ← okOr table.slots[index]? .invalidToken
  rejectIf (slot.generation ≠ generation) .invalidToken
  let record ← okOr slot.value .invalidToken
  return (index, record)

/-- `record_mut`: the slot and the pipe of a token that an owner presents. -/
def ownerRecord (table : PipeTable) (owner : OwnerId) (token : PipeToken) :
    Except ProcessError (ℕ × PipeRecord) := do
  let (index, record) ← table.endpointRecord token
  rejectIf (record.owner ≠ owner) .foreignOwner
  return (index, record)

variable (index : ℕ) (owner : OwnerId)

/-- Put a pipe back into its slot. -/
def putRecord (record : PipeRecord) : PipeAct Unit :=
  modify fun table => { table with slots := table.slots.put index (some record) }

/-- The part of `create` that finds a slot, and adds one if there is none. -/
def vacantSlot (granted : Bool) : PipeAct ℕ := do
  let table ← get
  match table.slots.findIdx? fun slot => slot.value.isNone with
  | some index => return index
  | none => do
    reject (table.slots.length = table.capacity) .capacityExhausted
    reject (granted = false) .metadataExhausted
    modify fun table =>
      { table with slots := table.slots ++ [{ generation := 1, value := none }] }
    return table.slots.length

/-- `create`. -/
def create (capacity : ℕ) (slotGranted bytesGranted : Bool) : PipeAct PipeToken := do
  let table ← get
  reject (capacity < minCapacity ∨ maxCapacity < capacity ∨
    maxPipeBytesPerOwner < table.reservedBytes + capacity) .capacityExhausted
  let index ← vacantSlot slotGranted
  let table ← get
  let token ← ofExcept (encodeToken index (table.slots.generation index))
  reject (bytesGranted = false) .metadataExhausted
  putRecord index
    { owner, capacity, bytes := [], ownerReaderOpen := true, ownerWriterOpen := true,
      attachedReaders := 0, attachedWriters := 0 }
  let reserved ← okOr (checkedAdd 64 table.reservedBytes capacity) .accountingOverflow
  modify fun table => { table with reservedBytes := reserved }
  return token

/-- `remove_if_closed`. -/
def removeIfClosed : PipeAct Unit := do
  let table ← get
  let slot ← okOr table.slots[index]? .invalidToken
  let record ← okOr slot.value .invalidToken
  if record.removable then do
    let _next ← okOr (checkedAdd 32 slot.generation 1) .generationExhausted
    modify fun table => { table with slots := table.slots.vacate index }
    let reserved ← okOr (checkedSub table.reservedBytes record.capacity) .accountingOverflow
    modify fun table => { table with reservedBytes := reserved }
  else pure ()

/-- `attach`. -/
def attach (token : PipeToken) (direction : PipeDirection) : PipeAct PipeEndpoint := do
  let table ← get
  let (index, record) ← ofExcept (table.ownerRecord owner token)
  reject (record.ownerOpen direction = false) .closed
  let count ← okOr (checkedAdd 32 (record.attached direction) 1) .accountingOverflow
  putRecord index (record.setAttached count direction)
  return { token, direction }

/-- `detach`. -/
def detach (endpoint : PipeEndpoint) : PipeAct Unit := do
  let table ← get
  let (index, record) ← ofExcept (table.endpointRecord endpoint.token)
  let count ← okOr (checkedSub (record.attached endpoint.direction) 1) .invalidState
  putRecord index (record.setAttached count endpoint.direction)
  removeIfClosed index

/-- `close_owner`. -/
def closeOwner (owner : OwnerId) (token : PipeToken) (direction : PipeDirection) :
    PipeAct Unit := do
  let table ← get
  let (index, record) ← ofExcept (table.ownerRecord owner token)
  reject (record.ownerOpen direction = false) .closed
  putRecord index (record.closeOwner direction)
  removeIfClosed index

/-- Write to the pipe in a slot. -/
def writeSlot (record : PipeRecord) (bytes : List UInt8) : PipeAct ℕ := do
  let record ← ofExcept (record.writePipe bytes)
  putRecord index record
  return bytes.length

/-- Read from the pipe in a slot. -/
def readSlot (record : PipeRecord) (size : ℕ) : PipeAct (List UInt8) := do
  let (bytes, record) ← ofExcept (record.readPipe size)
  putRecord index record
  return bytes

/-- `write_owner`. -/
def writeOwner (token : PipeToken) (bytes : List UInt8) : PipeAct ℕ := do
  let table ← get
  let (index, record) ← ofExcept (table.ownerRecord owner token)
  reject (record.ownerWriterOpen = false ∨ record.readers = 0) .closed
  writeSlot index record bytes

/-- `read_owner`. -/
def readOwner (token : PipeToken) (size : ℕ) : PipeAct (List UInt8) := do
  let table ← get
  let (index, record) ← ofExcept (table.ownerRecord owner token)
  reject (record.ownerReaderOpen = false) .closed
  readSlot index record size

/-- `write_endpoint`. -/
def writeEndpoint (endpoint : PipeEndpoint) (bytes : List UInt8) : PipeAct ℕ := do
  reject (endpoint.direction ≠ .writer) .invalidState
  let table ← get
  let (index, record) ← ofExcept (table.endpointRecord endpoint.token)
  reject (record.readers = 0) .closed
  writeSlot index record bytes

/-- `read_endpoint`. -/
def readEndpoint (endpoint : PipeEndpoint) (size : ℕ) : PipeAct (List UInt8) := do
  reject (endpoint.direction ≠ .reader) .invalidState
  let table ← get
  let (index, record) ← ofExcept (table.endpointRecord endpoint.token)
  readSlot index record size

end PipeTable

/-! ## Runs -/

/-- A call on the table. -/
inductive PipeCall where
  | create (owner : OwnerId) (capacity : ℕ) (slotGranted bytesGranted : Bool)
  | attach (owner : OwnerId) (token : PipeToken) (direction : PipeDirection)
  | detach (endpoint : PipeEndpoint)
  | closeOwner (owner : OwnerId) (token : PipeToken) (direction : PipeDirection)
  | writeOwner (owner : OwnerId) (token : PipeToken) (bytes : List UInt8)
  | readOwner (owner : OwnerId) (token : PipeToken) (size : ℕ)
  | writeEndpoint (endpoint : PipeEndpoint) (bytes : List UInt8)
  | readEndpoint (endpoint : PipeEndpoint) (size : ℕ)

/-- What a call answers. -/
inductive PipeReply where
  | token (token : PipeToken)
  | endpoint (endpoint : PipeEndpoint)
  | done
  | count (count : ℕ)
  | bytes (bytes : List UInt8)
deriving DecidableEq

/-- Make a call. -/
def PipeCall.perform : PipeCall → PipeAct PipeReply
  | create owner capacity slotGranted bytesGranted =>
    return .token (← PipeTable.create owner capacity slotGranted bytesGranted)
  | attach owner token direction => return .endpoint (← PipeTable.attach owner token direction)
  | detach endpoint => do PipeTable.detach endpoint; return .done
  | closeOwner owner token direction => do PipeTable.closeOwner owner token direction; return .done
  | writeOwner owner token bytes => return .count (← PipeTable.writeOwner owner token bytes)
  | readOwner owner token size => return .bytes (← PipeTable.readOwner owner token size)
  | writeEndpoint endpoint bytes => return .count (← PipeTable.writeEndpoint endpoint bytes)
  | readEndpoint endpoint size => return .bytes (← PipeTable.readEndpoint endpoint size)

/-- The token a call names. -/
def PipeCall.token : PipeCall → Option PipeToken
  | create _ _ _ _ => none
  | attach _ token _ | closeOwner _ token _ | writeOwner _ token _ | readOwner _ token _ =>
    some token
  | detach endpoint | writeEndpoint endpoint _ | readEndpoint endpoint _ => some endpoint.token

/-- The attached endpoint a call uses. -/
def PipeCall.endpoint : PipeCall → Option PipeEndpoint
  | detach endpoint | writeEndpoint endpoint _ | readEndpoint endpoint _ => some endpoint
  | _ => none

/-- What happens to pipes in a run. This is not part of the source. -/
inductive PipeEvent where
  | created (token : PipeToken)
  | attached (endpoint : PipeEndpoint)
  | detached (endpoint : PipeEndpoint)
  | wrote (token : PipeToken) (bytes : List UInt8)
  | got (token : PipeToken) (bytes : List UInt8)
  | ended (token : PipeToken)
deriving DecidableEq

/-- The pipe of an event. -/
def PipeEvent.token : PipeEvent → PipeToken
  | created token | wrote token _ | got token _ | ended token => token
  | attached endpoint | detached endpoint => endpoint.token

/-- What a read reports: the bytes, or the end of file. -/
def readEvent (token : PipeToken) (bytes : List UInt8) : PipeEvent :=
  if bytes = [] then .ended token else .got token bytes

/-- What a call did, by its answer. A detached endpoint is detached whatever the answer is. -/
def PipeCall.events : PipeCall → Except ProcessError PipeReply → List PipeEvent
  | detach endpoint, _ => [.detached endpoint]
  | create _ _ _ _, .ok (.token token) => [.created token]
  | attach _ _ _, .ok (.endpoint endpoint) => [.attached endpoint]
  | writeOwner _ token bytes, .ok (.count count) => [.wrote token (bytes.take count)]
  | writeEndpoint endpoint bytes, .ok (.count count) => [.wrote endpoint.token (bytes.take count)]
  | readOwner _ token _, .ok (.bytes bytes) => [readEvent token bytes]
  | readEndpoint endpoint _, .ok (.bytes bytes) => [readEvent endpoint.token bytes]
  | _, _ => []

/-- The bytes written to a pipe. -/
def written (history : List PipeEvent) (token : PipeToken) : List UInt8 :=
  history.flatMap fun
    | .wrote t bytes => if t = token then bytes else []
    | _ => []

/-- The bytes read from a pipe. -/
def taken (history : List PipeEvent) (token : PipeToken) : List UInt8 :=
  history.flatMap fun
    | .got t bytes => if t = token then bytes else []
    | _ => []

/-- How often an endpoint is attached and not detached. -/
def outstanding (history : List PipeEvent) (endpoint : PipeEndpoint) : ℕ :=
  history.foldl (fun count event =>
    if event = .attached endpoint then count + 1
    else if event = .detached endpoint then count - 1
    else count) 0

/-- A run: the table, and what has happened. -/
structure PipeRun where
  table : PipeTable
  history : List PipeEvent

namespace PipeRun

/-- Make a call in a run. -/
def step (run : PipeRun) (call : PipeCall) : PipeRun :=
  let (result, table) := call.perform run.table
  { table, history := run.history ++ call.events result }

/-- An endpoint is used only while it is attached. -/
def Allowed (run : PipeRun) (call : PipeCall) : Prop :=
  ∀ endpoint ∈ call.endpoint, 0 < outstanding run.history endpoint

end PipeRun

end Troe.Process
