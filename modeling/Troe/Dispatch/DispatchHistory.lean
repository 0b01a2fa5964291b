import Troe.Dispatch.Dispatcher

/-!
# What happened at a dispatcher

A run of the dispatcher leaves a history: registrations, issued handles, what was closed, the requests
handed to services and the scheduler calls authorized. `Held` and `Serves` say which authority exists
after a history, and `Justified` says when an event was right. None of this is part of the source.
-/

namespace Troe.Dispatch

open Lib Abi

/-! ## Events -/

/-- What happens at a dispatcher. -/
inductive DispatchEvent (σ : Type) where
  | registered (port : PortId) (service : σ)
  | issued (handle : Handle) (binding : HandleBinding)
  | closed (handle : Handle)
  | closedOwner (owner : HandleOwner)
  | closedPort (port : PortId)
  | invoked (presenter : Option HandleOwner) (handle : Handle) (port : PortId) (service : σ)
      (delivery : Delivery)
  | authorized (owner : HandleOwner) (handle : Handle) (request : ThreadRequest)

/-- A history, oldest event first. -/
abbrev History (σ : Type) : Type := List (DispatchEvent σ)

variable {σ : Type}

/-- The event takes the authority of a handle away: the handle is closed, or all handles of its owner
are, or the port is closed that it stands for. -/
def DispatchEvent.Revokes (handle : Handle) (binding : HandleBinding) : DispatchEvent σ → Prop
  | closed h => h = handle
  | closedOwner owner => binding.owner = owner
  | closedPort port => binding.target = .service port
  | _ => False

/-- The handle was issued with this authority and has not been closed since. -/
def Held (h : History σ) (handle : Handle) (binding : HandleBinding) : Prop :=
  ∃ pre post, h = pre ++ .issued handle binding :: post ∧ ∀ e ∈ post, ¬ e.Revokes handle binding

variable [Service σ]

/-- The service at a port after an event: it has handled the requests handed to it. -/
def DispatchEvent.evolve (port : PortId) (service : σ) : DispatchEvent σ → σ
  | invoked _ _ p _ delivery => if p = port then delivery.after service else service
  | _ => service

/-- A service was registered at the port, the port has not been closed since, and this is what the
service has become. -/
def Serves (h : History σ) (port : PortId) (service : σ) : Prop :=
  ∃ pre initial post, h = pre ++ .registered port initial :: post ∧ .closedPort port ∉ post ∧
    service = post.foldl (DispatchEvent.evolve port) initial

/-- An event is right after a history. A registration and a handle are new; a handle for a port is
issued while the port is open; a service is invoked through a handle that is held, has the call right
and stands for the very registration of that service; a scheduler call is authorized through a handle
that is held by the owner presenting it and has the rights the request needs. -/
def Justified (h : History σ) : DispatchEvent σ → Prop
  | .registered port _ => ∀ service, .registered port service ∉ h
  | .issued handle binding => (∀ binding', .issued handle binding' ∉ h) ∧
      ∀ port, binding.target = .service port → ∃ service, Serves h port service
  | .closed handle => ∃ binding, Held h handle binding
  | .closedOwner owner => owner.isolated = true
  | .closedPort port => ∃ service, Serves h port service
  | .invoked presenter handle port service _ =>
    Serves h port service ∧ ∃ binding, Held h handle binding ∧ binding.target = .service port ∧
      binding.rights.contains Rights.call = true ∧ ∀ owner ∈ presenter, binding.owner = owner
  | .authorized owner handle request =>
    ∃ binding interface, Held h handle binding ∧ binding.target = .scheduler interface ∧
      binding.owner = owner ∧ owner.isolated = true ∧ request.interface = interface.id ∧
      binding.rights.contains ⟨request.requiredRights⟩ = true

/-- Every event was right when it happened. -/
def Sound (h : History σ) : Prop := ∀ pre e post, h = pre ++ e :: post → Justified pre e

/-! ## Runs -/

/-- An operation that a run may ask for. -/
inductive DispatchCall (σ : Type) where
  | register (service : σ) (rights : Rights) (portGranted handleGranted : Bool)
  | openOwned (port : PortId) (rights : Rights) (owner : HandleOwner) (granted : Bool)
  | openSchedulerOwned (interface : SchedulerInterface) (rights : Rights) (owner : HandleOwner)
      (granted : Bool)
  | close (handle : Handle)
  | closeOwner (owner : HandleOwner)
  | closePort (port : PortId)
  | call (handle : Handle) (opcode : ℕ) (payload : Bytes)
  | callInto (handle : Handle) (opcode : ℕ) (payload destination : Bytes)
  | callOwnedAbi (owner : HandleOwner) (value opcode : ℕ) (payload : Bytes)
  | callOwnedAbiInto (owner : HandleOwner) (value opcode : ℕ) (payload destination : Bytes)
  | authorizeSchedulerOwnedAbi (owner : HandleOwner) (value : ℕ) (bytes : Bytes)

/-- What an operation answers. -/
inductive DispatchReply where
  | registered (port : PortId) (handle : Handle)
  | handle (handle : Handle)
  | done
  | count (matching : ℕ)
  | reply (reply : Reply)
  | info (info : ReplyInfo) (written : Bytes)
  | authorized (call : AuthorizedSchedulerCall)

namespace DispatchCall

/-- Do what is asked for. -/
def perform : DispatchCall σ → DispatchAct σ DispatchReply
  | register service rights portGranted handleGranted => do
    let (port, handle) ← Dispatcher.register service rights portGranted handleGranted
    return .registered port handle
  | openOwned port rights owner granted =>
    return .handle (← Dispatcher.openOwned port rights owner granted)
  | openSchedulerOwned interface rights owner granted =>
    return .handle (← Dispatcher.openSchedulerOwned interface rights owner granted)
  | close handle => do Dispatcher.close handle; return .done
  | closeOwner owner => return .count (← Dispatcher.closeOwner owner)
  | closePort port => do Dispatcher.closePort port; return .done
  | call handle opcode payload => return .reply (← Dispatcher.call handle opcode payload)
  | callInto handle opcode payload destination => do
    let (info, written) ← Dispatcher.callInto handle opcode payload destination
    return .info info written
  | callOwnedAbi owner value opcode payload =>
    return .reply (← Dispatcher.callOwnedAbi owner value opcode payload)
  | callOwnedAbiInto owner value opcode payload destination => do
    let (info, written) ← Dispatcher.callOwnedAbiInto owner value opcode payload destination
    return .info info written
  | authorizeSchedulerOwnedAbi owner value bytes =>
    return .authorized (← Dispatcher.authorizeSchedulerOwnedAbi owner value bytes)

omit [Service σ]

/-- A service is invoked exactly when its call is admitted, whatever becomes of the reply. -/
def invocation (self : Dispatcher σ) (presenter : Option HandleOwner) (handle : Handle) (opcode : ℕ)
    (payload : Bytes) (destination : Option Bytes) : History σ :=
  match (Dispatcher.admitCall handle opcode payload destination self).1 with
  | .ok (port, service, request) =>
    [.invoked presenter handle port service { request, destination }]
  | .error _ => []

/-- The same for a call with the value of a handle. -/
def ownedInvocation (self : Dispatcher σ) (owner : HandleOwner) (value opcode : ℕ)
    (payload : Bytes) (destination : Option Bytes) : History σ :=
  match (Dispatcher.ownedHandle owner value self).1 with
  | .ok handle => invocation self (some owner) handle opcode payload destination
  | .error _ => []

/-- What an operation does, by the state before it and its answer. -/
def events (self : Dispatcher σ) : DispatchCall σ → Except DispatchError DispatchReply → History σ
  | register service rights _ _, .ok (.registered port handle) =>
    [.registered port service, .issued handle ⟨.service port, rights, .kernel⟩]
  | openOwned port rights owner _, .ok (.handle handle) =>
    [.issued handle ⟨.service port, rights, owner⟩]
  | openSchedulerOwned interface rights owner _, .ok (.handle handle) =>
    [.issued handle ⟨.scheduler interface, rights, owner⟩]
  | close handle, .ok _ => [.closed handle]
  | closeOwner owner, .ok _ => [.closedOwner owner]
  | closePort port, .ok _ => [.closedPort port]
  | call handle opcode payload, _ => invocation self none handle opcode payload none
  | callInto handle opcode payload destination, _ =>
    invocation self none handle opcode payload (some destination)
  | callOwnedAbi owner value opcode payload, _ => ownedInvocation self owner value opcode payload none
  | callOwnedAbiInto owner value opcode payload destination, _ =>
    ownedInvocation self owner value opcode payload (some destination)
  | authorizeSchedulerOwnedAbi _ value _, .ok (.authorized admitted) =>
    match Handle.fromAbiValue value with
    | .ok handle => [.authorized admitted.owner handle admitted.request]
    | .error _ => []
  | _, _ => []

/-- The port that an operation names. -/
def named : DispatchCall σ → Option PortId
  | openOwned port _ _ _ | closePort port => some port
  | _ => none

end DispatchCall

/-- A run: the dispatcher, and what has happened. -/
structure DispatchRun (σ : Type) where
  dispatcher : Dispatcher σ
  history : History σ

namespace DispatchRun

/-- Perform an operation in a run. -/
def step (run : DispatchRun σ) (call : DispatchCall σ) : DispatchRun σ :=
  let (result, dispatcher) := call.perform run.dispatcher
  { dispatcher, history := run.history ++ call.events run.dispatcher result }

/-- A run after some more operations. -/
def after (run : DispatchRun σ) (calls : List (DispatchCall σ)) : DispatchRun σ :=
  calls.foldl step run

/-- The states that runs of a new dispatcher reach. -/
def Reached (run : DispatchRun σ) : Prop :=
  ∃ portCapacity handleCapacity granted dispatcher calls,
    Dispatcher.new portCapacity handleCapacity granted = .ok dispatcher ∧
      run = after ⟨dispatcher, []⟩ calls

end DispatchRun

/-! ## Histories that grow -/

section

variable {h : History σ} {e : DispatchEvent σ} {handle : Handle} {binding : HandleBinding}
  {port : PortId} {service : σ}

omit [Service σ] in
theorem held_concat : Held (h ++ [e]) handle binding ↔
    e = .issued handle binding ∨ Held h handle binding ∧ ¬ e.Revokes handle binding := by
  simp only [Held, concat_eq_append_cons]
  constructor
  · rintro ⟨pre, post, ⟨rfl, rfl, rfl⟩ | ⟨post', rfl, rfl⟩, hpost⟩
    · exact .inl rfl
    · refine .inr ⟨⟨pre, post', rfl, fun e' he' => ?_⟩, ?_⟩
      · exact hpost e' (List.mem_append_left _ he')
      · exact hpost e (List.mem_append_right _ (List.mem_singleton_self e))
  · rintro (rfl | ⟨⟨pre, post, rfl, hpost⟩, hkeeps⟩)
    · exact ⟨h, [], .inl ⟨rfl, rfl, rfl⟩, by simp⟩
    · refine ⟨pre, post ++ [e], .inr ⟨post, rfl, rfl⟩, fun e' he' => ?_⟩
      rcases List.mem_append.mp he' with he' | he'
      · exact hpost e' he'
      · rwa [List.mem_singleton.mp he']

theorem serves_concat : Serves (h ++ [e]) port service ↔
    e = .registered port service ∨
      e ≠ .closedPort port ∧ ∃ before, Serves h port before ∧ service = e.evolve port before := by
  simp only [Serves, concat_eq_append_cons]
  constructor
  · rintro ⟨pre, initial, post, ⟨rfl, rfl, rfl⟩ | ⟨post', rfl, rfl⟩, hopen, rfl⟩
    · exact .inl rfl
    · refine .inr ⟨fun heq => hopen (by simp [heq]), _, ⟨pre, initial, post', rfl, ?_, rfl⟩, ?_⟩
      · exact fun hmem => hopen (List.mem_append_left _ hmem)
      · rw [List.foldl_append]
        rfl
  · rintro (rfl | ⟨hkeeps, _, ⟨pre, initial, post, rfl, hopen, rfl⟩, rfl⟩)
    · exact ⟨h, service, [], .inl ⟨rfl, rfl, rfl⟩, by simp, rfl⟩
    · refine ⟨pre, initial, post ++ [e], .inr ⟨post, rfl, rfl⟩, ?_, ?_⟩
      · simp [hopen, Ne.symm hkeeps]
      · rw [List.foldl_append]
        rfl

theorem sound_nil : Sound ([] : History σ) := by
  intro pre e post heq
  simp at heq

theorem Sound.concat (hsound : Sound h) (hjust : Justified h e) : Sound (h ++ [e]) := by
  intro pre e' post heq
  rcases concat_eq_append_cons.mp heq with ⟨-, rfl, rfl⟩ | ⟨post', -, rfl⟩
  · exact hjust
  · exact hsound pre e' post' rfl

variable {binding' : HandleBinding} {more : History σ}

/-- A port stays open as long as it is not closed. -/
theorem Serves.append (hserves : Serves h port service) (hopen : .closedPort port ∉ more) :
    ∃ service', Serves (h ++ more) port service' := by
  obtain ⟨pre, initial, post, rfl, hpost, -⟩ := hserves
  refine ⟨_, pre, initial, post ++ more, by simp, ?_, rfl⟩
  simp [hpost, hopen]

/-- A handle that is held stands for an open port, if it stands for one. -/
theorem Sound.serves_of_held (hsound : Sound h) (hheld : Held h handle binding)
    (htarget : binding.target = .service port) : ∃ service, Serves h port service := by
  obtain ⟨pre, post, rfl, hpost⟩ := hheld
  obtain ⟨-, hport⟩ := hsound pre _ post rfl
  obtain ⟨service, hserves⟩ := hport port htarget
  refine hserves.append fun hmem => ?_
  rcases List.mem_cons.mp hmem with heq | hmem
  · cases heq
  · exact hpost _ hmem htarget

end

end Troe.Dispatch
