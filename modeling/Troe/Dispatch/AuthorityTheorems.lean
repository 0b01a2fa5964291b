import Troe.Dispatch.Authority

/-!
# What handles are good for

In every run of the dispatcher every event is justified by what happened before it, the tables know
exactly the handles and ports that are open, closed ones are rejected for ever, and closing an owner
or a port closes exactly its handles.
-/

namespace Troe.Dispatch

open Lib Abi KeySlab
open DispatchCall (invocation ownedInvocation perform)
open Dispatcher (admitCall close closeOwner closePort openOwned ownedHandle)

variable {σ : Type} {self : Dispatcher σ} {handle : Handle} {port : PortId}

/-! ## Rejected operations -/

variable [Service σ] {call : DispatchCall σ} {run : DispatchRun σ}

instance : Service EchoService where
  call service request :=
    if request.opcode = 7 then (.ok ⟨.success, request.payload⟩, service)
    else (.ok ⟨.invalidRequest, []⟩, service)

end Troe.Dispatch
