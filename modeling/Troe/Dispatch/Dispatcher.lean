import Troe.Dispatch.Threading
import Troe.Lib.Act
import Troe.Lib.KeySlab

/-!
# The dispatcher (`troe-dispatch`)

Services are registered at ports, and clients call them through handles. A port and a handle are both
a slot with a generation; when one is closed the generation of its slot moves on, and a slot whose
generations are used up is retired. A handle may also stand for one of the two scheduler interfaces,
which no service answers. Whether the heap grants a reservation is the environment's choice and a
parameter of the calls that reserve.
-/

namespace Troe.Dispatch

open Lib Abi
open Act (fail get modify ofExcept okOr reject)

/-- `MAX_MESSAGE_BYTES`. -/
def maxMessageBytes : ℕ := 4 * 1024

/-- `MAX_PORTS`. -/
def maxPorts : ℕ := 65536

/-- `MAX_HANDLES`. -/
def maxHandles : ℕ := 262144

/-- The last generation of a slot. -/
def maxGeneration : ℕ := 2 ^ 32 - 1

/-- Why a call was rejected. -/
inductive DispatchError where
  | invalidCapacity
  | invalidOwner
  | metadataExhausted
  | portCapacityExhausted
  | handleCapacityExhausted
  | messageTooLarge
  | invalidHandle
  | invalidPort
  | permissionDenied
  | invalidRights
  | endpointCapacityExhausted
  | invalidEndpoint
  | invalidInterface
  | badgeCapacityExhausted
  | invalidBadge
  | invalidCall
  | invalidDeadline
  | callCapacityExhausted
  | queueFull
  | retainedBytesExhausted
  | accountingOverflow

/-! ## Identities and rights -/

/-- Identity of one registration of a service. -/
@[ext]
structure PortId where
  slot : ℕ
  generation : ℕ
deriving DecidableEq

/-- Identity of one issued authority. -/
@[ext]
structure Handle where
  slot : ℕ
  generation : ℕ

/-- `Handle::from_abi_value`. -/
def Handle.fromAbiValue (value : ℕ) : Except DispatchError Handle := do
  let encodedSlot := value % 2 ^ 32
  let generation := value / 2 ^ 32
  rejectIf (encodedSlot = 0 ∨ maxHandles < encodedSlot ∨ generation = 0) .invalidHandle
  rejectIf (2 ^ 32 ≤ generation) .invalidHandle
  return ⟨encodedSlot - 1, generation⟩

/-- Who owns a handle. -/
inductive HandleOwner where
  | kernel
  | isolatedTask (id : ℕ)
deriving DecidableEq

/-- The owner is a task, and not the reserved one. -/
def HandleOwner.isolated : HandleOwner → Bool
  | .kernel => false
  | .isolatedTask id => id ≠ 0

/-- Rights attached to a handle. -/
structure Rights where
  bits : RightBits

namespace Rights

/-- `Rights::CALL`. -/
def call : Rights := ⟨RightBits.call⟩

/-- `Rights::contains`. -/
def contains (rights requested : Rights) : Bool := rights.bits &&& requested.bits = requested.bits

/-- `Rights::from_bits`. -/
def fromBits (bits : ℕ) : Except DispatchError Rights := do
  rejectIf (2 ^ 16 ≤ bits) .invalidRights
  let bits := BitVec.ofNat 16 bits
  rejectIf (bits &&& ~~~RightBits.assigned ≠ 0) .invalidRights
  return ⟨bits⟩

/-- `Rights::for_interface`. -/
def forInterface (rights : Rights) (interface : ℕ) : Except DispatchError Rights := do
  let allowed := allowedRights interface
  rejectIf (allowed = 0 ∨ rights.bits &&& ~~~allowed ≠ 0) .invalidRights
  return rights

end Rights

/-- The scheduler interfaces. -/
inductive SchedulerInterface where
  | controlV1
  | syncV1
deriving DecidableEq

/-- `SchedulerInterface::id`. -/
def SchedulerInterface.id : SchedulerInterface → ℕ
  | .controlV1 => threadControl
  | .syncV1 => threadSync

/-- What a handle gives authority over. -/
inductive HandleTarget where
  | service (port : PortId)
  | scheduler (interface : SchedulerInterface)
deriving DecidableEq

/-- The authority of a handle. -/
structure HandleBinding where
  target : HandleTarget
  rights : Rights
  owner : HandleOwner

/-- The owner of a scheduler call and its request. -/
structure AuthorizedSchedulerCall where
  owner : HandleOwner
  request : ThreadRequest

/-! ## Services -/

/-- What a service reports about a request. -/
inductive ReplyStatus where
  | success | invalidRequest | notFound | failure | exhausted | notConfigured | cancelled | timeout
  | conflict | tooLarge | invalidPath | wrongType | readOnly | noSpace | exists | corrupt | io
  | unsupported | overflow | networkProtocol | denied | notEmpty | crossDevice | resourceLimit

/-- A request as a service sees it. -/
structure Request where
  id : ℕ
  opcode : ℕ
  payload : Bytes

/-- The reply of a service. -/
structure ServiceReply where
  status : ReplyStatus
  payload : Bytes

/-- The reply of a service that wrote its payload into the caller's storage. -/
structure ServiceReplyInfo where
  status : ReplyStatus
  payloadBytes : ℕ
  payloadCopies : ℕ
  payloadAllocations : ℕ

/-- `Service`: what the services with states `σ` do with a request. -/
class Service (σ : Type) where
  call : σ → Request → Except DispatchError ServiceReply × σ
  callInto : σ → Request → Bytes → Except DispatchError (ServiceReplyInfo × Bytes) × σ :=
    fun service request destination =>
      let (result, service) := call service request
      let info : Except DispatchError (ServiceReplyInfo × Bytes) := do
        let reply ← result
        rejectIf (destination.length < reply.payload.length) .messageTooLarge
        let nonempty := if reply.payload.length ≠ 0 then 1 else 0
        return ({ status := reply.status, payloadBytes := reply.payload.length,
                  payloadCopies := nonempty * 2, payloadAllocations := nonempty },
          splice destination 0 reply.payload)
      (info, service)

/-- A request that was handed to a service, with the caller's storage if there is one. -/
structure Delivery where
  request : Request
  destination : Option Bytes

/-- The service after it has handled a request. -/
def Delivery.after {σ : Type} [Service σ] (delivery : Delivery) (service : σ) : σ :=
  match delivery.destination with
  | none => (Service.call service delivery.request).2
  | some destination => (Service.callInto service delivery.request destination).2

/-- The reply to a client. -/
structure Reply where
  requestId : ℕ
  status : ReplyStatus
  payload : Bytes

/-- The reply to a client whose payload is in the client's storage. -/
structure ReplyInfo where
  requestId : ℕ
  status : ReplyStatus
  payloadBytes : ℕ

/-! ## The tables -/

/-- The dispatcher. -/
structure Dispatcher (σ : Type) where
  ports : KeySlab σ Unit
  handles : KeySlab HandleBinding Unit
  portCapacity : ℕ
  handleCapacity : ℕ
  nextRequestId : ℕ
  calls : ℕ
  replies : ℕ
  requestBytes : ℕ
  replyBytes : ℕ
  replyPayloadCopies : ℕ
  replyPayloadAllocations : ℕ

/-- An operation on the dispatcher. -/
abbrev DispatchAct (σ α : Type) : Type := Act (Dispatcher σ) DispatchError α

/-- The common part of `allocate_port` and `allocate_handle`: a value is stored in the first slot that
can take one, or in a new slot. The result is the slot and its generation. -/
def allocate {α : Type} (slab : KeySlab α Unit) (capacity : ℕ) (exhausted : DispatchError)
    (granted : Bool) (value : α) : Except DispatchError (ℕ × ℕ) × KeySlab α Unit :=
  match slab.vacancy with
  | some index =>
    (do rejectIf (2 ^ 32 ≤ index) .accountingOverflow
        return (index, slab.generation index),
      slab.modify index (KeySlot.store value))
  | none =>
    if slab.length = capacity then (.error exhausted, slab)
    else if granted = false then (.error .metadataExhausted, slab)
    else
      (do rejectIf (2 ^ 32 ≤ slab.length) .accountingOverflow
          return (slab.length, 1),
        slab ++ [⟨1, false, some value, ()⟩])

namespace Dispatcher

variable {σ : Type}

/-- `Dispatcher::new`. -/
def new (portCapacity handleCapacity : ℕ) (granted : Bool) :
    Except DispatchError (Dispatcher σ) := do
  rejectIf (portCapacity = 0 ∨ maxPorts < portCapacity ∨ handleCapacity = 0 ∨
    maxHandles < handleCapacity) .invalidCapacity
  rejectIf (granted = false) .metadataExhausted
  return { ports := [], handles := [], portCapacity, handleCapacity, nextRequestId := 1, calls := 0,
           replies := 0, requestBytes := 0, replyBytes := 0, replyPayloadCopies := 0,
           replyPayloadAllocations := 0 }

/-- `validate_port`. -/
def validatePort (self : Dispatcher σ) (port : PortId) : Except DispatchError Unit := do
  let slot ← okOr self.ports[port.slot]? .invalidPort
  rejectIf (slot.generation ≠ port.generation ∨ slot.record.isNone) .invalidPort

/-- `handle_binding`. -/
def handleBinding (self : Dispatcher σ) (handle : Handle) : Except DispatchError HandleBinding := do
  let slot ← okOr self.handles[handle.slot]? .invalidHandle
  rejectIf (slot.generation ≠ handle.generation) .invalidHandle
  okOr slot.record .invalidHandle

/-- `allocate_port`. -/
def allocatePort (service : σ) (granted : Bool) : DispatchAct σ PortId := do
  let self ← get
  let (result, ports) := allocate self.ports self.portCapacity .portCapacityExhausted granted service
  modify fun self => { self with ports }
  let (slot, generation) ← ofExcept result
  return ⟨slot, generation⟩

/-- `allocate_handle`. -/
def allocateHandle (binding : HandleBinding) (granted : Bool) : DispatchAct σ Handle := do
  reject (binding.owner = .isolatedTask 0) .invalidOwner
  let self ← get
  let (result, handles) :=
    allocate self.handles self.handleCapacity .handleCapacityExhausted granted binding
  modify fun self => { self with handles }
  let (slot, generation) ← ofExcept result
  return ⟨slot, generation⟩

/-- `open_owned`. -/
def openOwned (port : PortId) (rights : Rights) (owner : HandleOwner) (granted : Bool) :
    DispatchAct σ Handle := do
  reject (owner = .isolatedTask 0) .invalidOwner
  let self ← get
  ofExcept (self.validatePort port)
  allocateHandle { target := .service port, rights, owner } granted

/-- `open_scheduler_owned`. -/
def openSchedulerOwned (interface : SchedulerInterface) (rights : Rights) (owner : HandleOwner)
    (granted : Bool) : DispatchAct σ Handle := do
  reject (owner.isolated = false) .invalidOwner
  let rights ← ofExcept (rights.forInterface interface.id)
  allocateHandle { target := .scheduler interface, rights, owner } granted

/-- `close`. -/
def close (handle : Handle) : DispatchAct σ Unit := do
  let self ← get
  let _binding ← ofExcept (self.handleBinding handle)
  modify fun self =>
    { self with handles := self.handles.modify handle.slot (KeySlot.vacate maxGeneration) }

/-- `close_owner`. -/
def closeOwner (owner : HandleOwner) : DispatchAct σ ℕ := do
  reject (owner.isolated = false) .invalidOwner
  let self ← get
  let matching := self.handles.countP fun slot => slot.record.any fun binding => binding.owner = owner
  reject (2 ^ 16 ≤ matching) .accountingOverflow
  modify fun self =>
    { self with
      handles := self.handles.vacateAll maxGeneration fun binding => binding.owner = owner }
  return matching

/-- `close_port`. -/
def closePort (port : PortId) : DispatchAct σ Unit := do
  let self ← get
  ofExcept (self.validatePort port)
  modify fun self =>
    { self with
      handles := self.handles.vacateAll maxGeneration fun binding => binding.target = .service port
      ports := self.ports.modify port.slot (KeySlot.vacate maxGeneration) }

/-- `register`. The first handle belongs to the kernel. -/
def register (service : σ) (rights : Rights) (portGranted handleGranted : Bool) :
    DispatchAct σ (PortId × Handle) := do
  let port ← allocatePort service portGranted
  match ← Act.attempt (openOwned port rights .kernel handleGranted) with
  | .ok handle => return (port, handle)
  | .error error => do
    let _closed ← Act.attempt (closePort port)
    fail error

/-! ## Calls -/

/-- What `call` and `call_into` do before they hand the request to the service: the port, the service
and the request. -/
def admitCall (handle : Handle) (opcode : ℕ) (payload : Bytes) (destination : Option Bytes) :
    DispatchAct σ (PortId × σ × Request) := do
  reject (maxMessageBytes < payload.length ∨
    ∃ bytes ∈ destination, maxMessageBytes < bytes.length) .messageTooLarge
  let self ← get
  let binding ← ofExcept (self.handleBinding handle)
  reject (binding.rights.contains Rights.call = false) .permissionDenied
  match binding.target with
  | .scheduler _ => fail .invalidHandle
  | .service port => do
    ofExcept (self.validatePort port)
    let nextRequestId ← okOr (checkedAdd 64 self.nextRequestId 1) .accountingOverflow
    let calls ← okOr (checkedAdd 64 self.calls 1) .accountingOverflow
    let requestBytes ←
      okOr (checkedAdd 64 self.requestBytes payload.length) .accountingOverflow
    modify fun self => { self with nextRequestId, calls, requestBytes }
    let service ← okOr (self.ports.record port.slot) .invalidPort
    return (port, service, { id := self.nextRequestId, opcode, payload })

/-- Put a service back after it has handled a request. -/
def putService (port : PortId) (service : σ) : DispatchAct σ Unit :=
  modify fun self => { self with ports := self.ports.modify port.slot (KeySlot.store service) }

/-- What `call` and `call_into` add to the counters for a reply. -/
def account (payloadBytes copies allocations : ℕ) : DispatchAct σ Unit := do
  let self ← get
  let replies ← okOr (checkedAdd 64 self.replies 1) .accountingOverflow
  let replyBytes ← okOr (checkedAdd 64 self.replyBytes payloadBytes) .accountingOverflow
  let replyPayloadCopies ←
    okOr (checkedAdd 64 self.replyPayloadCopies copies) .accountingOverflow
  let replyPayloadAllocations ←
    okOr (checkedAdd 64 self.replyPayloadAllocations allocations) .accountingOverflow
  modify fun self =>
    { self with replies, replyBytes, replyPayloadCopies, replyPayloadAllocations }

section

variable [Service σ]

/-- `call`. -/
def call (handle : Handle) (opcode : ℕ) (payload : Bytes) : DispatchAct σ Reply := do
  let (port, service, request) ← admitCall handle opcode payload none
  let (result, service) := Service.call service request
  putService port service
  let reply ← ofExcept result
  reject (maxMessageBytes < reply.payload.length) .messageTooLarge
  let nonempty := if reply.payload = [] then 0 else 1
  account reply.payload.length nonempty nonempty
  return { requestId := request.id, status := reply.status, payload := reply.payload }

/-- `call_into`; the caller's storage is handed back with the reply. -/
def callInto (handle : Handle) (opcode : ℕ) (payload destination : Bytes) :
    DispatchAct σ (ReplyInfo × Bytes) := do
  let (port, service, request) ← admitCall handle opcode payload (some destination)
  let (result, service) := Service.callInto service request destination
  putService port service
  let (reply, written) ← ofExcept result
  reject (destination.length < reply.payloadBytes ∨ maxMessageBytes < reply.payloadBytes)
    .messageTooLarge
  account reply.payloadBytes reply.payloadCopies reply.payloadAllocations
  return ({ requestId := request.id, status := reply.status, payloadBytes := reply.payloadBytes },
    written)

end

/-- What the calls of applications do first: the handle must belong to the task. -/
def ownedHandle (owner : HandleOwner) (value : ℕ) : DispatchAct σ Handle := do
  reject (owner.isolated = false) .invalidOwner
  let handle ← ofExcept (Handle.fromAbiValue value)
  let self ← get
  let binding ← ofExcept (self.handleBinding handle)
  reject (binding.owner ≠ owner) .invalidHandle
  return handle

/-- `authorize_scheduler_owned_abi`. -/
def authorizeSchedulerOwnedAbi (owner : HandleOwner) (value : ℕ) (bytes : Bytes) :
    DispatchAct σ AuthorizedSchedulerCall := do
  reject (owner.isolated = false) .invalidOwner
  let handle ← ofExcept (Handle.fromAbiValue value)
  let self ← get
  let binding ← ofExcept (self.handleBinding handle)
  reject (binding.owner ≠ owner) .invalidHandle
  match binding.target with
  | .service _ => fail .invalidHandle
  | .scheduler interface => do
    let request ← ofExcept
      ((ThreadRequest.decode interface.id bytes).mapError fun _ => .invalidCall)
    let required ← ofExcept (Rights.fromBits request.requiredRights.toNat)
    reject (binding.rights.contains required = false) .permissionDenied
    return { owner, request }

variable [Service σ]

/-- `call_owned_abi`. -/
def callOwnedAbi (owner : HandleOwner) (value opcode : ℕ) (payload : Bytes) :
    DispatchAct σ Reply := do
  let handle ← ownedHandle owner value
  call handle opcode payload

/-- `call_owned_abi_into`. -/
def callOwnedAbiInto (owner : HandleOwner) (value opcode : ℕ) (payload destination : Bytes) :
    DispatchAct σ (ReplyInfo × Bytes) := do
  let handle ← ownedHandle owner value
  callInto handle opcode payload destination

end Dispatcher

end Troe.Dispatch
