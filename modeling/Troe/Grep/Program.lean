import Mathlib.Data.List.MinMax
import Troe.Lib.Checked

/-!
# Compiled grep patterns and their search (`apps/grep`)

A program is a table of instructions whose targets are indices into it. The search runs all threads
of the program over the line at once: at each position it keeps, for every instruction reached, the
smallest starting offset of a thread that reached it.

The instruction array is modelled by the list of its used part. The marker `NONE` of the origin
table is `none`.
-/

namespace Troe.Grep

open Lib

def maxInstructions : ℕ := 512
def maxRepetition : ℕ := 64
def maxSteps : ℕ := 40000000

/-- `NONE`: no target. -/
def noTarget : ℕ := 2 ^ 64 - 1

inductive RegexError where
  | invalid
  | tooComplex
  | matchLimit
deriving DecidableEq

inductive Op where
  | byte (expected : UInt8)
  | any
  | cls (bits : BitVec 256)
  | split
  | jump
  | start
  | «end»
  | «match»
deriving DecidableEq

structure Instruction where
  op : Op
  x : ℕ
  y : ℕ
deriving DecidableEq

structure Fragment where
  start : ℕ
  out : ℕ
deriving DecidableEq

structure Program where
  instructions : List Instruction
  aggregate : Option Fragment
  start : ℕ
  finished : Bool
deriving DecidableEq

/-- `Program::new`. -/
def Program.new : Program where
  instructions := []
  aggregate := none
  start := noTarget
  finished := false

/-- The number of instructions in use. -/
def Program.length (program : Program) : ℕ := program.instructions.length

/-- `instructions[pc]`. -/
def Program.instruction (program : Program) (pc : ℕ) : Instruction :=
  program.instructions.getD pc { op := .match, x := noTarget, y := noTarget }

/-! ## Bytes -/

variable (byte : UInt8)

/-- `is_ascii_lowercase`. -/
def isLower : Bool := 0x61 ≤ byte && byte ≤ 0x7a

/-- `is_ascii_uppercase`. -/
def isUpper : Bool := 0x41 ≤ byte && byte ≤ 0x5a

/-- `is_ascii_digit`. -/
def isDigit : Bool := 0x30 ≤ byte && byte ≤ 0x39

/-- `is_ascii_alphanumeric`. -/
def isAlphanumeric : Bool := isLower byte || isUpper byte || isDigit byte

/-- `to_ascii_lowercase`. -/
def toLower : UInt8 := if isUpper byte then byte + 0x20 else byte

/-- `to_ascii_uppercase`. -/
def toUpper : UInt8 := if isLower byte then byte - 0x20 else byte

/-- `is_word`. -/
def isWord : Bool := isAlphanumeric byte || byte == 0x5f

/-- `byte_eq`. -/
def byteEq (left right : UInt8) (ignoreCase : Bool) : Bool :=
  left == right || (ignoreCase && toLower left == toLower right)

/-- `has_class_bit`, on the four words as one vector of 256 bits. -/
def hasClassBit (bits : BitVec 256) (byte : UInt8) : Bool := bits.getLsbD byte.toNat

/-- `class_contains`. -/
def classContains (bits : BitVec 256) (byte : UInt8) (ignoreCase : Bool) : Bool :=
  hasClassBit bits byte ||
    (ignoreCase && (hasClassBit bits (toLower byte) || hasClassBit bits (toUpper byte)))

/-- Whether an instruction consumes this byte. -/
def Op.accepts (ignoreCase : Bool) (byte : UInt8) : Op → Bool
  | .byte expected => byteEq expected byte ignoreCase
  | .any => true
  | .cls bits => classContains bits byte ignoreCase
  | _ => false

/-- Whether an instruction waits for a byte. -/
def Op.consuming : Op → Bool
  | .byte _ | .any | .cls _ => true
  | _ => false

/-! ## State sets -/

structure StateSet where
  states : List ℕ
  origins : ℕ → Option ℕ
  listed : ℕ → Bool

namespace StateSet

/-- `StateSet::new`, and the set after `clear`. -/
def new : StateSet where
  states := []
  origins _ := none
  listed _ := false

/-- `StateSet::push`. -/
def push (states : StateSet) (pc : ℕ) : Except RegexError StateSet := do
  if states.listed pc then return states
  rejectIf (states.states.length = maxInstructions) .tooComplex
  return { states with
    states := states.states ++ [pc]
    listed := Function.update states.listed pc true }

/-- Record the origin of an instruction. -/
def mark (states : StateSet) (pc origin : ℕ) : StateSet :=
  { states with origins := Function.update states.origins pc (some origin) }

end StateSet

/-- `tick`. -/
def tick (steps : ℕ) : Except RegexError ℕ :=
  if maxSteps < steps + 1 then .error .matchLimit else .ok (steps + 1)

/-- `push_pending`, on a stack whose top is its head. -/
def pushPending (pending : List ℕ) (pc : ℕ) : Except RegexError (List ℕ) :=
  if pending.length = maxInstructions then .error .tooComplex else .ok (pc :: pending)

namespace Program

variable (program : Program)

/-- One turn of the loop in `add_state` for an instruction that is marked now. -/
def expand (position subjectLength pc : ℕ) (pending : List ℕ) (states : StateSet) :
    Except RegexError (List ℕ × StateSet) :=
  let instruction := program.instruction pc
  match instruction.op with
  | .split => do
    let pending ← pushPending pending instruction.y
    let pending ← pushPending pending instruction.x
    return (pending, states)
  | .jump => do return (← pushPending pending instruction.x, states)
  | .start =>
    if position = 0 then do return (← pushPending pending instruction.x, states)
    else .ok (pending, states)
  | .end =>
    if position = subjectLength then do return (← pushPending pending instruction.x, states)
    else .ok (pending, states)
  | _ => do return (pending, ← states.push pc)

/-- The loop of `add_state`. Every instruction is marked at most once and pushes at most two others,
so the turns are bounded by `closureTurns`; running out of them is the same error as an overfull
stack. -/
def close (position subjectLength origin : ℕ) :
    ℕ → List ℕ → StateSet → ℕ → Except RegexError (StateSet × ℕ)
  | _, [], states, steps => .ok (states, steps)
  | 0, _ :: _, _, _ => .error .tooComplex
  | turns + 1, pc :: pending, states, steps =>
    if program.length ≤ pc ∨ (states.origins pc).any (· ≤ origin) then
      close position subjectLength origin turns pending states steps
    else do
      let steps ← tick steps
      let (pending, states) ←
        program.expand position subjectLength pc pending (states.mark pc origin)
      close position subjectLength origin turns pending states steps

def closureTurns : ℕ := 2 * program.length + 2

/-- `Program::add_state`. -/
def addState (states : StateSet) (initial position subjectLength origin steps : ℕ) :
    Except RegexError (StateSet × ℕ) :=
  program.close position subjectLength origin program.closureTurns [initial] states steps

end Program

/-! ## Search -/

/-- The arguments of `Program::find`. -/
structure Query where
  subject : List UInt8
  «from» : ℕ
  ignoreCase : Bool
  wholeLine : Bool
  wholeWord : Bool

namespace Query

variable (query : Query)

/-- `subject[position]`. -/
def byteAt (position : ℕ) : UInt8 := query.subject.getD position 0

/-- Whether a match may start here in the whole-line and whole-word modes. -/
def startsAt (position : ℕ) : Bool :=
  (!query.wholeWord || position == 0 || !isWord (query.byteAt (position - 1))) &&
    (!query.wholeLine || position == 0)

/-- Whether a match may end here in the whole-line and whole-word modes. -/
def endsAt (position : ℕ) : Bool :=
  !((query.wholeLine && position != query.subject.length) ||
    (query.wholeWord && position < query.subject.length && isWord (query.byteAt position)))

end Query

/-- The variables of the search loop. -/
structure Search where
  current : StateSet
  best : Option (ℕ × ℕ)
  steps : ℕ

namespace Program

variable (program : Program) (query : Query)

/-- `StateSet::accepted_start`. -/
def acceptedStart (states : StateSet) (position : ℕ) : Option ℕ :=
  if query.endsAt position then
    ((states.states.filter fun pc => (program.instruction pc).op = .match).filterMap
      states.origins).min?
  else none

/-- `StateSet::has_consuming_from`. -/
def hasConsumingFrom (states : StateSet) (origin : ℕ) : Bool :=
  states.states.any fun pc =>
    states.origins pc = some origin && (program.instruction pc).op.consuming

/-- The best range after a match from `start` to `position`. -/
def improve (best : Option (ℕ × ℕ)) (start position : ℕ) : Option (ℕ × ℕ) :=
  match best with
  | some range =>
    if start = range.1 then some (range.1, position)
    else if start < range.1 then some (start, position)
    else some range
  | none => some (start, position)

variable (position : ℕ) (search : Search)

/-- A thread that starts at the position, if one may. -/
def startThread : Except RegexError (StateSet × ℕ) :=
  if search.best.all (position ≤ ·.1) && query.startsAt position then
    program.addState search.current program.start position query.subject.length position
      search.steps
  else .ok (search.current, search.steps)

/-- The first half of one turn of the search: a thread that starts here, and the matches that end
here. -/
def enter : Except RegexError Search := do
  let (current, steps) ← program.startThread query position search
  let best := (program.acceptedStart query current position).elim search.best
    (improve search.best · position)
  return { current, best, steps }

/-- The thread at one instruction moves on if the instruction accepts the byte at the position. -/
def moveThread (origin pc : ℕ) (next : StateSet × ℕ) : Except RegexError (StateSet × ℕ) :=
  let instruction := program.instruction pc
  if instruction.op.accepts query.ignoreCase (query.byteAt position) then
    program.addState next.1 instruction.x (position + 1) query.subject.length origin next.2
  else .ok next

/-- The thread at one instruction consumes the byte at the position, unless the best range rules it
out. -/
def consume (next : StateSet × ℕ) (pc : ℕ) : Except RegexError (StateSet × ℕ) :=
  match search.current.origins pc with
  | none => .ok next
  | some origin =>
    if search.best.any (·.1 < origin) then .ok next
    else do
      let (states, steps) ← program.moveThread query position origin pc next
      return (states, ← tick steps)

/-- The second half of one turn: every thread consumes the byte at the position. -/
def advance : Except RegexError Search := do
  let (current, steps) ←
    search.current.states.foldlM (program.consume query position search) (.new, search.steps)
  return { search with current, steps }

/-- The search loop, from the position with this many bytes left. -/
def searchLoop : ℕ → Search → Except RegexError (Option (ℕ × ℕ))
  | 0, search => do
    let search ← program.enter query query.subject.length search
    return search.best
  | remaining + 1, search => do
    let position := query.subject.length - (remaining + 1)
    let search ← program.enter query position search
    if search.best.any fun range => !program.hasConsumingFrom search.current range.1 then
      return search.best
    let search ← program.advance query position search
    searchLoop remaining search

/-- `Program::find`. -/
def find : Except RegexError (Option (ℕ × ℕ)) := do
  rejectIf (program.finished = false ∨ query.subject.length < query.from) .invalid
  program.searchLoop query (query.subject.length - query.from)
    { current := .new, best := none, steps := 0 }

end Program

end Troe.Grep
