import Troe.Lib.Bytes

/-!
# Scheduler requests (`troe-abi::threading`)

A scheduler request is a record of 64 bytes: a version, an operation, the interface and seven words.
The interface is known before the record is decoded, and every word an operation does not use is zero.
-/

namespace Troe.Abi

open Lib

/-- `interface::THREAD_CONTROL`. -/
def threadControl : ℕ := 30

/-- `interface::THREAD_SYNC`. -/
def threadSync : ℕ := 31

/-! ## Rights -/

/-- A set of rights, one bit each. -/
abbrev RightBits : Type := BitVec 16

namespace RightBits

def call : RightBits := 1 <<< 0
def receive : RightBits := 1 <<< 1
def reply : RightBits := 1 <<< 2
def wait : RightBits := 1 <<< 3
def read : RightBits := 1 <<< 4
def write : RightBits := 1 <<< 5
def flush : RightBits := 1 <<< 6
def derive : RightBits := 1 <<< 7
def reset : RightBits := 1 <<< 8
def threadCreate : RightBits := 1 <<< 9
def threadStart : RightBits := 1 <<< 10
def threadJoin : RightBits := 1 <<< 11
def threadDetach : RightBits := 1 <<< 12
def threadStop : RightBits := 1 <<< 13
def threadObserve : RightBits := 1 <<< 14

/-- `rights::THREAD_CONTROL`. -/
def threadControl : RightBits :=
  threadCreate ||| threadStart ||| threadJoin ||| threadDetach ||| threadStop ||| threadObserve

/-- `rights::ASSIGNED`. -/
def assigned : RightBits :=
  call ||| receive ||| reply ||| wait ||| read ||| write ||| flush ||| derive ||| reset |||
    threadControl

end RightBits

/-- `allowed_rights`, of the two scheduler interfaces. -/
def allowedRights (interface : ℕ) : RightBits :=
  if interface = threadControl then RightBits.call ||| RightBits.threadControl
  else if interface = threadSync then RightBits.call
  else 0

/-! ## Words -/

/-- The bytes are not a request. -/
inductive EncodingError where
  | encodingError

/-- `Kind`, the domain of a token. -/
inductive Kind where
  | thread
  | mutex
  | condition
  | permit
deriving DecidableEq

/-- `Token`: a slot, a kind and a generation in one word. -/
structure Token where
  bits : ℕ

/-- `Token::kind`. -/
def Token.kind (value : Token) : Kind :=
  match value.bits / 2 ^ 24 % 256 with
  | 1 => .thread
  | 2 => .mutex
  | 3 => .condition
  | _ => .permit

/-- `Token::decode`. -/
def Token.decode (bits : ℕ) : Except EncodingError Token := do
  rejectIf (bits / 2 ^ 32 = 0 ∨ bits % 2 ^ 24 = 0 ∨ bits / 2 ^ 24 % 256 < 1 ∨
    4 < bits / 2 ^ 24 % 256) .encodingError
  return ⟨bits⟩

/-- `token`: a token of a kind. -/
def token (bits : ℕ) (kind : Kind) : Except EncodingError Token := do
  let value ← Token.decode bits
  rejectIf (value.kind ≠ kind) .encodingError
  return value

/-- A wait: until a deadline or without one, and whether it sees a stop request. -/
structure Wait where
  deadline : Option ℕ
  observeStop : Bool

/-- Testing, or waiting. -/
inductive WaitMode where
  | tryNow
  | wait (duration : Wait)

/-- `WaitMode::decode`. -/
def WaitMode.decode (flags deadline : ℕ) : Except EncodingError WaitMode := do
  rejectIf (flags &&& 0x103 ≠ flags) .encodingError
  let observeStop := flags &&& 0x100 ≠ 0
  match flags &&& 3 with
  | 0 => if flags = 0 ∧ deadline = 0 then return .tryNow else .error .encodingError
  | 1 => if deadline = 0 then return .wait ⟨none, observeStop⟩ else .error .encodingError
  | 2 => return .wait ⟨some deadline, observeStop⟩
  | _ => .error .encodingError

/-- `WaitMode::waiting`. -/
def WaitMode.waiting : WaitMode → Except EncodingError Abi.Wait
  | .wait duration => .ok duration
  | .tryNow => .error .encodingError

/-- What happens to a mutex whose owner dies. -/
inductive OwnerDeath where
  | poison
  | failProcess

/-! ## Requests -/

/-- The operations on threads and synchronization objects. -/
inductive ThreadRequest where
  | prepare (entryOffset argument stackPages : ℕ)
  | start (thread : Token)
  | abort (thread : Token)
  | join (thread : Token) (wait : WaitMode)
  | detach (thread : Token)
  | requestStop (thread : Token)
  | observe (thread : Token)
  | current
  | exit (value : ℕ)
  | sleep (wait : Wait)
  | createMutex (policy : OwnerDeath)
  | createCondition
  | createPermit (count maximum : ℕ)
  | lock (mutex : Token) (wait : WaitMode)
  | unlock (mutex : Token)
  | conditionWait (condition mutex : Token) (wait : Wait)
  | notify (condition : Token) (all : Bool)
  | acquirePermit (permit : Token) (wait : WaitMode)
  | releasePermit (permit : Token) (count : ℕ)
  | destroyMutex (mutex : Token)
  | destroyCondition (condition : Token)
  | destroyPermit (permit : Token)

namespace ThreadRequest

/-- `Request::interface`. -/
def interface : ThreadRequest → ℕ
  | prepare .. | start _ | abort _ | join .. | detach _ | requestStop _ | observe _ | current
  | exit _ | sleep _ => threadControl
  | _ => threadSync

/-- `Request::required_rights`. -/
def requiredRights (request : ThreadRequest) : RightBits :=
  RightBits.call |||
    match request with
    | prepare .. => RightBits.threadCreate
    | start _ | abort _ => RightBits.threadStart
    | join .. => RightBits.threadJoin
    | detach _ => RightBits.threadDetach
    | requestStop _ => RightBits.threadStop
    | observe _ | current => RightBits.threadObserve
    | _ => 0

/-- `REQUEST_BYTES`. -/
def requestBytes : ℕ := 64

/-- `MAJOR`. -/
def major : ℕ := 1

/-- A request of the control interface and the number of words it uses. -/
def decodeControl (opcode a b c : ℕ) : Except EncodingError (ThreadRequest × ℕ) :=
  match opcode with
  | 1 => do
    rejectIf (¬ (a < 2 ^ 30 ∧ 0 < c ∧ c ≤ 2 ^ 32)) .encodingError
    return (.prepare a b c, 3)
  | 2 => return (.start (← token a .thread), 1)
  | 3 => return (.abort (← token a .thread), 1)
  | 4 => return (.join (← token a .thread) (← WaitMode.decode b c), 3)
  | 5 => return (.detach (← token a .thread), 1)
  | 6 => return (.requestStop (← token a .thread), 1)
  | 7 => return (.observe (← token a .thread), 1)
  | 8 => return (.current, 0)
  | 9 => return (.exit a, 1)
  | 10 => return (.sleep (← (← WaitMode.decode a b).waiting), 2)
  | _ => .error .encodingError

/-- A request of the synchronization interface and the number of words it uses. -/
def decodeSync (opcode a b c d : ℕ) : Except EncodingError (ThreadRequest × ℕ) :=
  match opcode with
  | 1 => do
    rejectIf (1 < a) .encodingError
    return (.createMutex (if a = 0 then .poison else .failProcess), 1)
  | 2 => return (.createCondition, 0)
  | 3 => do
    rejectIf (¬ (0 < b ∧ a ≤ b)) .encodingError
    rejectIf (2 ^ 32 ≤ a ∨ 2 ^ 32 ≤ b) .encodingError
    return (.createPermit a b, 2)
  | 4 => return (.lock (← token a .mutex) (← WaitMode.decode b c), 3)
  | 5 => return (.unlock (← token a .mutex), 1)
  | 6 => return (.conditionWait (← token a .condition) (← token b .mutex)
      (← (← WaitMode.decode c d).waiting), 4)
  | 7 => do
    rejectIf (1 < b) .encodingError
    return (.notify (← token a .condition) (b = 1), 2)
  | 8 => return (.acquirePermit (← token a .permit) (← WaitMode.decode b c), 3)
  | 9 => do
    rejectIf (b = 0) .encodingError
    let permit ← token a .permit
    rejectIf (2 ^ 32 ≤ b) .encodingError
    return (.releasePermit permit b, 2)
  | 10 => return (.destroyMutex (← token a .mutex), 1)
  | 11 => return (.destroyCondition (← token a .condition), 1)
  | 12 => return (.destroyPermit (← token a .permit), 1)
  | _ => .error .encodingError

/-- A request of an interface and the number of words it uses. -/
def decodeWords (interface opcode : ℕ) (words : List ℕ) : Except EncodingError (ThreadRequest × ℕ) :=
  let word (index : ℕ) := words.getD index 0
  if interface = threadControl then decodeControl opcode (word 0) (word 1) (word 2)
  else if interface = threadSync then decodeSync opcode (word 0) (word 1) (word 2) (word 3)
  else .error .encodingError

/-- `Request::decode`, against the interface of the handle. -/
def decode (expectedInterface : ℕ) (bytes : Bytes) : Except EncodingError ThreadRequest := do
  rejectIf (bytes.length ≠ requestBytes) .encodingError
  rejectIf ((← okOr (readLe 2 bytes 0) .encodingError) ≠ major) .encodingError
  rejectIf ((← okOr (readLe 4 bytes 4) .encodingError) ≠ expectedInterface) .encodingError
  let opcode ← okOr (readLe 2 bytes 2) .encodingError
  let words ← (List.range 7).mapM fun index =>
    okOr (readLe 8 bytes (8 + index * 8)) EncodingError.encodingError
  let (request, used) ← decodeWords expectedInterface opcode words
  rejectIf (∃ word ∈ words.drop used, word ≠ 0) .encodingError
  return request

theorem interface_of_decodeControl {opcode a b c : ℕ} : ∀ decoded,
    decodeControl opcode a b c = .ok decoded → decoded.1.interface = threadControl := by
  unfold decodeControl
  split
  all_goals
    repeat refine forall_bind_ok fun _ => ?_
    rintro _ ⟨⟩
    try rfl

theorem interface_of_decodeSync {opcode a b c d : ℕ} : ∀ decoded,
    decodeSync opcode a b c d = .ok decoded → decoded.1.interface = threadSync := by
  unfold decodeSync
  split
  all_goals
    repeat refine forall_bind_ok fun _ => ?_
    rintro _ ⟨⟩
    try rfl

/-- A decoded request is one of the interface it was decoded for. -/
theorem interface_of_decode {expectedInterface : ℕ} {bytes : Bytes} : ∀ request,
    decode expectedInterface bytes = .ok request → request.interface = expectedInterface := by
  have hwords : ∀ opcode words, ∀ decoded, decodeWords expectedInterface opcode words = .ok decoded →
      decoded.1.interface = expectedInterface := by
    intro opcode words decoded hdecoded
    unfold decodeWords at hdecoded
    split_ifs at hdecoded with hcontrol hsync
    · exact (interface_of_decodeControl _ hdecoded).trans hcontrol.symm
    · exact (interface_of_decodeSync _ hdecoded).trans hsync.symm
  iterate 7 refine forall_bind_ok fun _ => ?_
  intro request hrequest
  obtain ⟨⟨decoded, used⟩, hdecoded, hrequest⟩ := bind_eq_ok.mp hrequest
  obtain ⟨_, -, hrequest⟩ := bind_eq_ok.mp hrequest
  cases hrequest
  exact hwords _ _ _ hdecoded

end ThreadRequest

end Troe.Abi
