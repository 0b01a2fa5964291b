import Troe.Grep.Program

/-!
# Compiling grep patterns (`apps/grep`)

The parser reads a pattern once and asks a builder for the pieces it finds. The builder of the
source emits instructions into a program: a fragment is an entry instruction and a list of the
targets that are still open, and the list is threaded through these targets themselves.
-/

namespace Troe.Grep

open Lib

/-- Regular-expression syntax accepted by the matcher. -/
inductive Syntax where
  | basic
  | extended
  | fixed
deriving DecidableEq

/-! ## Fragments -/

/-- `PATCH_TAG`. -/
def patchTag : ℕ := 2 ^ 63

/-- `patch_reference`: an open target, as the index of its instruction and which target it is. -/
def patchReference (index : ℕ) (y : Bool) : Except RegexError ℕ :=
  if maxInstructions ≤ index then .error .invalid else .ok (patchTag + (2 * index + y.toNat))

/-- `decode_patch_reference`. -/
def decodePatchReference (reference : ℕ) : Except RegexError (ℕ × Bool) :=
  if reference = noTarget ∨ reference < patchTag then .error .invalid
  else
    let encoded := reference - patchTag
    .ok (encoded / 2, encoded % 2 ≠ 0)

/-- `remap_index`. -/
def remapIndex (index sourceStart sourceEnd destination : ℕ) : Except RegexError ℕ :=
  if sourceStart ≤ index ∧ index < sourceEnd then .ok (destination + index - sourceStart)
  else .error .invalid

/-- `remap_patch`. -/
def remapPatch (reference sourceStart sourceEnd destination : ℕ) : Except RegexError ℕ :=
  if reference = noTarget then .ok noTarget
  else do
    let (index, y) ← decodePatchReference reference
    let index ← remapIndex index sourceStart sourceEnd destination
    patchReference index y

/-- `remap_target`. -/
def remapTarget (target sourceStart sourceEnd destination : ℕ) : Except RegexError ℕ :=
  if target = noTarget then .ok noTarget
  else if patchTag ≤ target then remapPatch target sourceStart sourceEnd destination
  else remapIndex target sourceStart sourceEnd destination

namespace Program

variable (program : Program)

/-- `Program::emit`. -/
def emit (op : Op) (x y : ℕ) : Except RegexError (ℕ × Program) := do
  rejectIf (program.length = maxInstructions) .tooComplex
  return (program.length, { program with instructions := program.instructions ++ [{ op, x, y }] })

/-- `Program::patch_target`. -/
def patchTarget (reference : ℕ) : Except RegexError ℕ := do
  let (index, y) ← decodePatchReference reference
  let instruction ← okOr program.instructions[index]? .invalid
  return if y then instruction.y else instruction.x

/-- `Program::set_patch_target`. -/
def setPatchTarget (reference target : ℕ) : Except RegexError Program := do
  let (index, y) ← decodePatchReference reference
  let instruction ← okOr program.instructions[index]? .invalid
  let instruction :=
    if y then { instruction with y := target } else { instruction with x := target }
  return { program with instructions := program.instructions.set index instruction }

/-- `Program::list`. -/
def list (instruction : ℕ) (y : Bool) : Except RegexError (ℕ × Program) := do
  let reference ← patchReference instruction y
  let program ← program.setPatchTarget reference noTarget
  return (reference, program)

/-- The loop of `Program::append`: the last reference of a list. The number of targets bounds the
turns. -/
def lastReference : ℕ → ℕ → Except RegexError ℕ
  | 0, _ => .error .invalid
  | turns + 1, cursor => do
    let next ← program.patchTarget cursor
    if next = noTarget then return cursor
    lastReference turns next

/-- `Program::append`. -/
def append (first second : ℕ) : Except RegexError (ℕ × Program) :=
  if first = noTarget then .ok (second, program)
  else do
    let cursor ← program.lastReference (2 * program.length + 1) first
    let program ← program.setPatchTarget cursor second
    return (first, program)

/-- The loop of `Program::patch`. -/
def patchLoop (target : ℕ) : ℕ → Program → ℕ → Except RegexError Program
  | 0, program, list => if list = noTarget then .ok program else .error .invalid
  | turns + 1, program, list =>
    if list = noTarget then .ok program
    else do
      let next ← program.patchTarget list
      let program ← program.setPatchTarget list target
      patchLoop target turns program next

/-- `Program::patch`. -/
def patch (list target : ℕ) : Except RegexError Program :=
  patchLoop target (2 * program.length) program list

/-- An instruction with one open target. -/
def single (op : Op) : Except RegexError (Fragment × Program) := do
  let (instruction, program) ← program.emit op noTarget noTarget
  let (out, program) ← program.list instruction false
  return ({ start := instruction, out }, program)

/-- `Program::empty`. -/
def empty : Except RegexError (Fragment × Program) := program.single .jump

/-- `Program::concat`. -/
def concat (left right : Fragment) : Except RegexError (Fragment × Program) := do
  let program ← program.patch left.out right.start
  return ({ start := left.start, out := right.out }, program)

/-- `Program::alternate`. -/
def alternate (left right : Fragment) : Except RegexError (Fragment × Program) := do
  let (split, program) ← program.emit .split left.start right.start
  let (out, program) ← program.append left.out right.out
  return ({ start := split, out }, program)

/-- `Program::star`. -/
def star (fragment : Fragment) : Except RegexError (Fragment × Program) := do
  let (split, program) ← program.emit .split fragment.start noTarget
  let program ← program.patch fragment.out split
  let (out, program) ← program.list split true
  return ({ start := split, out }, program)

/-- `Program::plus`. -/
def plus (fragment : Fragment) : Except RegexError (Fragment × Program) := do
  let (split, program) ← program.emit .split fragment.start noTarget
  let program ← program.patch fragment.out split
  let (out, program) ← program.list split true
  return ({ start := fragment.start, out }, program)

/-- `Program::question`. -/
def question (fragment : Fragment) : Except RegexError (Fragment × Program) := do
  let (split, program) ← program.emit .split fragment.start noTarget
  let (emptyOut, program) ← program.list split true
  let (out, program) ← program.append fragment.out emptyOut
  return ({ start := split, out }, program)

/-- A template's instruction, moved to another place. -/
def remapInstruction (sourceStart sourceEnd destination : ℕ) (instruction : Instruction) :
    Except RegexError Instruction := do
  let x ← remapTarget instruction.x sourceStart sourceEnd destination
  let y ← remapTarget instruction.y sourceStart sourceEnd destination
  return { op := instruction.op, x, y }

/-- `Program::clone_fragment`. -/
def cloneFragment (templateStart templateEnd : ℕ) (fragment : Fragment) :
    Except RegexError (Fragment × Program) := do
  let destination := program.length
  rejectIf (templateEnd < templateStart) .invalid
  rejectIf (maxInstructions < destination + (templateEnd - templateStart)) .tooComplex
  let copies ← ((program.instructions.take templateEnd).drop templateStart).mapM
    (remapInstruction templateStart templateEnd destination)
  let start ← remapIndex fragment.start templateStart templateEnd destination
  let out ← remapPatch fragment.out templateStart templateEnd destination
  return ({ start, out }, { program with instructions := program.instructions ++ copies })

/-! ### Intervals -/

/-- The clones of a template, in order. -/
def cloneMany (templateStart templateEnd : ℕ) (original : Fragment) :
    ℕ → Program → Except RegexError (List Fragment × Program)
  | 0, program => .ok ([], program)
  | count + 1, program => do
    let (copy, program) ← program.cloneFragment templateStart templateEnd original
    let (copies, program) ← cloneMany templateStart templateEnd original count program
    return (copy :: copies, program)

/-- The copies that an interval needs: the original and its clones. -/
def copies (templateStart templateEnd : ℕ) (original : Fragment) (count : ℕ) :
    Except RegexError (List Fragment × Program) :=
  match count with
  | 0 => .ok ([], program)
  | count + 1 => do
    let (clones, program) ← cloneMany templateStart templateEnd original count program
    return (original :: clones, program)

/-- Put a fragment behind what there is. -/
def chain (result : Option Fragment) (fragment : Fragment) :
    Except RegexError (Fragment × Program) :=
  match result with
  | none => .ok (fragment, program)
  | some previous => program.concat previous fragment

/-- The required copies, one behind the other. -/
def chainAll : List Fragment → Option Fragment → Program →
    Except RegexError (Option Fragment × Program)
  | [], result, program => .ok (result, program)
  | copy :: copies, result, program => do
    let (fragment, program) ← program.chain result copy
    chainAll copies (some fragment) program

/-- The optional copies, one behind the other. -/
def chainOptional : List Fragment → Option Fragment → Program →
    Except RegexError (Option Fragment × Program)
  | [], result, program => .ok (result, program)
  | copy :: copies, result, program => do
    let (optional, program) ← program.question copy
    let (fragment, program) ← program.chain result optional
    chainOptional copies (some fragment) program

/-- What was put together, or the empty pattern. -/
def orEmpty (result : Option Fragment) : Except RegexError (Fragment × Program) :=
  match result with
  | none => program.empty
  | some fragment => .ok (fragment, program)

/-- `Parser::repeat`. -/
def «repeat» (templateStart templateEnd : ℕ) (original : Fragment) (minimum : ℕ)
    (maximum : Option ℕ) : Except RegexError (Fragment × Program) := do
  rejectIf (maxRepetition < minimum ∨
    maximum.any fun maximum => maxRepetition < maximum || maximum < minimum) .tooComplex
  let (fragments, program) ←
    program.copies templateStart templateEnd original (maximum.getD (minimum + 1))
  let (result, program) ← chainAll (fragments.take minimum) none program
  match maximum with
  | none =>
    let copy ← okOr fragments[minimum]? .invalid
    let (tail, program) ← program.star copy
    program.chain result tail
  | some maximum =>
    let (result, program) ←
      chainOptional ((fragments.take maximum).drop minimum) result program
    program.orEmpty result

end Program

/-! ## Builders -/

/-- What the parser asks for. `σ` is what is built so far, `F` a piece of it. -/
structure Builder (σ F : Type) where
  length : σ → ℕ
  single : Op → σ → Except RegexError (F × σ)
  empty : σ → Except RegexError (F × σ)
  concat : F → F → σ → Except RegexError (F × σ)
  alternate : F → F → σ → Except RegexError (F × σ)
  star : F → σ → Except RegexError (F × σ)
  plus : F → σ → Except RegexError (F × σ)
  question : F → σ → Except RegexError (F × σ)
  «repeat» : ℕ → ℕ → F → ℕ → Option ℕ → σ → Except RegexError (F × σ)

/-- The builder of the source. -/
def programBuilder : Builder Program Fragment where
  length := Program.length
  single op program := program.single op
  empty := Program.empty
  concat left right program := program.concat left right
  alternate left right program := program.alternate left right
  star fragment program := program.star fragment
  plus fragment program := program.plus fragment
  question fragment program := program.question fragment
  «repeat» first last fragment minimum maximum program :=
    program.repeat first last fragment minimum maximum

/-! ## The parser -/

inductive Operator where
  | alternation
  | star
  | plus
  | question
  | interval
deriving DecidableEq

/-- The byte of an operator. -/
def Operator.byte : Operator → UInt8
  | .alternation => 0x7c
  | .star => 0x2a
  | .plus => 0x2b
  | .question => 0x3f
  | .interval => 0x7b

def backslash : UInt8 := 0x5c

/-- What the parser reads. -/
structure Pattern where
  bytes : List UInt8
  mode : Syntax

namespace Pattern

variable (pattern : Pattern)

variable (cursor : ℕ)

/-- `pattern.get(cursor)` is this byte. -/
def hasByte (byte : UInt8) : Bool := pattern.bytes[cursor]? == some byte

/-- A byte that basic syntax writes with a backslash. -/
def atEscaped (byte : UInt8) : Bool :=
  if pattern.mode = .extended then pattern.hasByte cursor byte
  else pattern.hasByte cursor backslash && pattern.hasByte (cursor + 1) byte

/-- The bytes that such a byte takes. -/
def escapedWidth : ℕ := if pattern.mode = .extended then 1 else 2

/-- `Parser::at_operator`. -/
def atOperator (operator : Operator) (cursor : ℕ) : Bool :=
  if operator = .star then pattern.hasByte cursor operator.byte
  else pattern.atEscaped cursor operator.byte

/-- The bytes that an operator takes. -/
def operatorWidth (operator : Operator) : ℕ := if operator = .star then 1 else pattern.escapedWidth

/-- `Parser::consume_operator`. -/
def consumeOperator (operator : Operator) (cursor : ℕ) : Except RegexError ℕ := do
  rejectIf (pattern.atOperator operator cursor = false) .invalid
  return cursor + pattern.operatorWidth operator

/-- `Parser::at_group_start`. -/
def atGroupStart : Bool := pattern.atEscaped cursor 0x28

/-- `Parser::at_group_end`. -/
def atGroupEnd : Bool := pattern.atEscaped cursor 0x29

/-- `Parser::interval_end_at_cursor`. -/
def intervalEndAtCursor : Bool := pattern.atEscaped cursor 0x7d

/-! ### Classes -/

/-- `set_class_bit`. -/
def setClassBit (bits : BitVec 256) (byte : UInt8) : BitVec 256 := bits ||| 1#256 <<< byte.toNat

/-- Whether a named class selects a byte; `none` for an unknown name. -/
def namedClass (name : List UInt8) (value : UInt8) : Option Bool :=
  let graphic := 0x21 ≤ value && value ≤ 0x7e
  let alphabetic := isLower value || isUpper value
  match String.ofList (name.map fun byte => Char.ofNat byte.toNat) with
  | "alnum" => some (isAlphanumeric value)
  | "alpha" => some alphabetic
  | "blank" => some (value == 0x20 || value == 0x09)
  | "cntrl" => some (value < 0x20 || value == 0x7f)
  | "digit" => some (isDigit value)
  | "graph" => some graphic
  | "lower" => some (isLower value)
  | "print" => some (graphic || value == 0x20)
  | "punct" => some (graphic && !isAlphanumeric value)
  | "space" => some (value == 0x20 || value == 0x09 || value == 0x0a || value == 0x0c || value == 0x0d)
  | "upper" => some (isUpper value)
  | "xdigit" => some (isDigit value || (0x41 ≤ value && value ≤ 0x46) ||
      (0x61 ≤ value && value ≤ 0x66))
  | _ => none

/-- Set the bits of the selected bytes. -/
def setSelected (selected : UInt8 → Option Bool) (bits : BitVec 256) :
    Except RegexError (BitVec 256) :=
  (List.range 256).foldlM (fun bits value => do
    let chosen ← okOr (selected (.ofNat value)) .invalid
    return if chosen then setClassBit bits (.ofNat value) else bits) bits

/-- The end of a class name: the first `:]` from here on, or where the pattern ends. -/
def nameEnd : ℕ → ℕ → ℕ
  | 0, cursor => cursor
  | turns + 1, cursor =>
    if cursor + 1 < pattern.bytes.length ∧
        ¬ (pattern.hasByte cursor 0x3a ∧ pattern.hasByte (cursor + 1) 0x5d) then
      nameEnd turns (cursor + 1)
    else cursor

/-- `Parser::parse_named_class`. -/
def parseNamedClass (bits : BitVec 256) : Except RegexError (BitVec 256 × ℕ) := do
  let nameStart := cursor + 2
  let finish := pattern.nameEnd pattern.bytes.length nameStart
  rejectIf (¬ (pattern.hasByte finish 0x3a ∧ pattern.hasByte (finish + 1) 0x5d)) .invalid
  let bits ← setSelected (namedClass ((pattern.bytes.take finish).drop nameStart)) bits
  return (bits, finish + 2)

/-- `Parser::class_byte`. -/
def classByte : Except RegexError (UInt8 × ℕ) := do
  let byte ← okOr pattern.bytes[cursor]? .invalid
  if byte = backslash then
    let escaped ← okOr pattern.bytes[cursor + 1]? .invalid
    return (escaped, cursor + 2)
  else return (byte, cursor + 1)

/-- One member of a class: a named class, a range or a byte. -/
def parseClassItem (bits : BitVec 256) : Except RegexError (BitVec 256 × ℕ) := do
  if pattern.hasByte cursor 0x5b && pattern.hasByte (cursor + 1) 0x3a then
    pattern.parseNamedClass cursor bits
  else
    let (start, cursor) ← pattern.classByte cursor
    if pattern.hasByte cursor 0x2d && pattern.bytes[cursor + 1]?.any (· ≠ 0x5d) then
      let (finish, cursor) ← pattern.classByte (cursor + 1)
      rejectIf (finish < start) .invalid
      let bits ← setSelected (fun value => some (start ≤ value && value ≤ finish)) bits
      return (bits, cursor)
    else return (setClassBit bits start, cursor)

/-- The loop of `Parser::parse_class` over the members. Every turn takes a byte. -/
def parseClassItems : ℕ → ℕ → BitVec 256 → Bool → Except RegexError (BitVec 256 × Bool × ℕ)
  | 0, cursor, bits, any => .ok (bits, any, cursor)
  | turns + 1, cursor, bits, any =>
    if cursor < pattern.bytes.length ∧ pattern.hasByte cursor 0x5d = false then do
      let (bits, cursor) ← pattern.parseClassItem cursor bits
      parseClassItems turns cursor bits true
    else .ok (bits, any, cursor)

/-- `Parser::parse_class`, up to the instruction. -/
def parseClass : Except RegexError (Op × ℕ) := do
  let cursor := cursor + 1
  let negated := pattern.hasByte cursor 0x5e
  let cursor := cursor + negated.toNat
  let closing := pattern.hasByte cursor 0x5d
  let bits := if closing then setClassBit 0 0x5d else 0
  let cursor := cursor + closing.toNat
  let (bits, any, cursor) ← pattern.parseClassItems pattern.bytes.length cursor bits closing
  rejectIf (any = false ∨ pattern.hasByte cursor 0x5d = false) .invalid
  return (.cls (if negated then ~~~bits else bits), cursor + 1)

/-! ### Intervals -/

/-- The loop of `Parser::number`. -/
def digits : ℕ → ℕ → ℕ → Except RegexError (ℕ × ℕ)
  | 0, cursor, value => .ok (value, cursor)
  | turns + 1, cursor, value =>
    match pattern.bytes[cursor]? with
    | some byte =>
      if isDigit byte then do
        let value ← okOr (checkedMul 64 value 10) .tooComplex
        let value ← okOr (checkedAdd 64 value (byte.toNat - 0x30)) .tooComplex
        digits turns (cursor + 1) value
      else .ok (value, cursor)
    | none => .ok (value, cursor)

/-- `Parser::number`. -/
def number : Except RegexError (ℕ × ℕ) := do
  let (value, finish) ← pattern.digits pattern.bytes.length cursor 0
  rejectIf (finish = cursor) .invalid
  return (value, finish)

/-- The upper bound of an interval. -/
def parseMaximum (minimum cursor : ℕ) : Except RegexError (Option ℕ × ℕ) :=
  if pattern.hasByte cursor 0x2c then
    if pattern.intervalEndAtCursor (cursor + 1) then .ok (none, cursor + 1)
    else do
      let (maximum, cursor) ← pattern.number (cursor + 1)
      return (some maximum, cursor)
  else .ok (some minimum, cursor)

/-- `Parser::parse_interval`. -/
def parseInterval : Except RegexError (ℕ × Option ℕ × ℕ) := do
  let cursor ← pattern.consumeOperator .interval cursor
  let (minimum, cursor) ← pattern.number cursor
  let (maximum, cursor) ← pattern.parseMaximum minimum cursor
  rejectIf (pattern.intervalEndAtCursor cursor = false) .invalid
  return (minimum, maximum, cursor + pattern.escapedWidth)

/-- The atoms of one instruction in `Parser::parse_atom`. -/
def parseSingle : Except RegexError (Op × ℕ) := do
  let byte ← okOr pattern.bytes[cursor]? .invalid
  if byte = 0x5b then pattern.parseClass cursor
  else if byte = 0x2e then return (.any, cursor + 1)
  else if byte = 0x5e then return (.start, cursor + 1)
  else if byte = 0x24 then return (.end, cursor + 1)
  else if byte = backslash then
    let escaped ← okOr pattern.bytes[cursor + 1]? .invalid
    rejectIf (pattern.mode = .basic ∧ escaped ∈ [0x28, 0x29, 0x7c, 0x2b, 0x3f, 0x7b]) .invalid
    return (.byte escaped, cursor + 2)
  else
    rejectIf (pattern.mode = .extended ∧ byte ∈ [0x29, 0x7c, 0x2a, 0x2b, 0x3f]) .invalid
    return (.byte byte, cursor + 1)

end Pattern

/-- The state of the parser. -/
structure Parser (σ : Type) where
  program : σ
  cursor : ℕ
  depth : ℕ

namespace Builder

variable {σ F : Type} (builder : Builder σ F) (pattern : Pattern)

/-- A builder's operation inside the parser. -/
def build (parser : Parser σ) (operation : σ → Except RegexError (F × σ)) :
    Except RegexError (F × Parser σ) := do
  let (fragment, program) ← operation parser.program
  return (fragment, { parser with program })

/-- The operator behind an atom in `Parser::parse_piece`. -/
def parseOperator (templateStart : ℕ) (fragment : F) (parser : Parser σ) :
    Except RegexError (F × Parser σ) := do
  let templateEnd := builder.length parser.program
  if pattern.atOperator .star parser.cursor then
    let cursor ← pattern.consumeOperator .star parser.cursor
    build { parser with cursor } (builder.star fragment)
  else if pattern.atOperator .plus parser.cursor then
    let cursor ← pattern.consumeOperator .plus parser.cursor
    build { parser with cursor } (builder.plus fragment)
  else if pattern.atOperator .question parser.cursor then
    let cursor ← pattern.consumeOperator .question parser.cursor
    build { parser with cursor } (builder.question fragment)
  else if pattern.atOperator .interval parser.cursor then
    let (minimum, maximum, cursor) ← pattern.parseInterval parser.cursor
    build { parser with cursor }
      (builder.repeat templateStart templateEnd fragment minimum maximum)
  else return (fragment, parser)

/-- Whether another operator follows. -/
def anotherOperator (cursor : ℕ) : Bool :=
  pattern.atOperator .star cursor || pattern.atOperator .plus cursor ||
    pattern.atOperator .question cursor || pattern.atOperator .interval cursor

/-- Whether `Parser::parse_concatenation` goes on. -/
def moreToConcatenate (grouped : Bool) (cursor : ℕ) : Bool :=
  cursor < pattern.bytes.length && !pattern.atOperator .alternation cursor &&
    !(grouped && pattern.atGroupEnd cursor)

/-- Put a piece behind what there is. -/
def chain (result : Option F) (fragment : F) (parser : Parser σ) :
    Except RegexError (F × Parser σ) :=
  match result with
  | none => .ok (fragment, parser)
  | some previous => build parser (builder.concat previous fragment)

/-- What was put together, or the empty pattern. -/
def orEmpty (result : Option F) (parser : Parser σ) : Except RegexError (F × Parser σ) :=
  match result with
  | none => build parser builder.empty
  | some fragment => .ok (fragment, parser)

/- The parser calls itself for a group, and its loops end where the pattern does. The first argument
bounds the depth of these calls. -/
mutual

/-- `Parser::parse_alternation`, its first operand. -/
def parseAlternation (turns : ℕ) (grouped : Bool) (parser : Parser σ) :
    Except RegexError (F × Parser σ) :=
  match turns with
  | 0 => .error .invalid
  | turns + 1 => do
    let (fragment, parser) ← parseConcatenation turns grouped none parser
    parseAlternatives turns grouped fragment parser

/-- `Parser::parse_alternation`, the loop over further operands. -/
def parseAlternatives (turns : ℕ) (grouped : Bool) (fragment : F) (parser : Parser σ) :
    Except RegexError (F × Parser σ) :=
  match turns with
  | 0 => .error .invalid
  | turns + 1 =>
    if pattern.atOperator .alternation parser.cursor then do
      let cursor ← pattern.consumeOperator .alternation parser.cursor
      let (right, parser) ← parseConcatenation turns grouped none { parser with cursor }
      let (fragment, parser) ← build parser (builder.alternate fragment right)
      parseAlternatives turns grouped fragment parser
    else .ok (fragment, parser)

/-- `Parser::parse_concatenation`. -/
def parseConcatenation (turns : ℕ) (grouped : Bool) (result : Option F) (parser : Parser σ) :
    Except RegexError (F × Parser σ) :=
  match turns with
  | 0 => .error .invalid
  | turns + 1 =>
    if moreToConcatenate pattern grouped parser.cursor then do
      let (fragment, parser) ← parsePiece turns parser
      let (fragment, parser) ← builder.chain result fragment parser
      parseConcatenation turns grouped (some fragment) parser
    else builder.orEmpty result parser

/-- `Parser::parse_piece`. -/
def parsePiece (turns : ℕ) (parser : Parser σ) : Except RegexError (F × Parser σ) :=
  match turns with
  | 0 => .error .invalid
  | turns + 1 => do
    let templateStart := builder.length parser.program
    let (fragment, parser) ← parseAtom turns parser
    let (fragment, parser) ← builder.parseOperator pattern templateStart fragment parser
    rejectIf (anotherOperator pattern parser.cursor) .invalid
    return (fragment, parser)

/-- `Parser::parse_atom`. -/
def parseAtom (turns : ℕ) (parser : Parser σ) : Except RegexError (F × Parser σ) :=
  match turns with
  | 0 => .error .invalid
  | turns + 1 =>
    if pattern.atGroupStart parser.cursor then do
      let depth := parser.depth + 1
      rejectIf (32 < depth) .tooComplex
      let (fragment, parser) ← parseAlternation turns true
        { parser with cursor := parser.cursor + pattern.escapedWidth, depth }
      rejectIf (pattern.atGroupEnd parser.cursor = false) .invalid
      return (fragment, { parser with
        cursor := parser.cursor + pattern.escapedWidth
        depth := parser.depth - 1 })
    else do
      let (op, cursor) ← pattern.parseSingle parser.cursor
      build { parser with cursor } (builder.single op)

end

/-- Enough depth for every call on this pattern. -/
def parserTurns : ℕ := 8 * (pattern.bytes.length + 1)

/-- `Parser::parse`. -/
def parse (program : σ) : Except RegexError (F × σ) := do
  let (fragment, parser) ← builder.parseAlternation pattern (parserTurns pattern) false
    { program, cursor := 0, depth := 0 }
  rejectIf (parser.cursor ≠ pattern.bytes.length) .invalid
  return (fragment, parser.program)

/-- `Program::compile_fixed`, its loop. -/
def fixedLoop : List UInt8 → Option F → σ → Except RegexError (F × σ)
  | [], none, program => builder.empty program
  | [], some fragment, program => .ok (fragment, program)
  | byte :: bytes, result, program => do
    let (fragment, program) ← builder.single (.byte byte) program
    match result with
    | none => fixedLoop bytes (some fragment) program
    | some previous =>
      let (fragment, program) ← builder.concat previous fragment program
      fixedLoop bytes (some fragment) program

/-- The fragment of one pattern in `Program::add`. -/
def compile (program : σ) : Except RegexError (F × σ) :=
  if pattern.mode = .fixed then builder.fixedLoop pattern.bytes none program
  else builder.parse pattern program

end Builder

/-! ## Programs of several patterns -/

namespace Program

variable (program : Program)

/-- The fragments of all patterns so far and of one more. -/
def aggregateWith (fragment : Fragment) : Except RegexError (Fragment × Program) :=
  match program.aggregate with
  | none => .ok (fragment, program)
  | some previous => program.alternate previous fragment

/-- `Program::add`. -/
def add (pattern : Pattern) : Except RegexError Program := do
  rejectIf program.finished .invalid
  let (fragment, program) ← programBuilder.compile pattern program
  let (aggregate, program) ← program.aggregateWith fragment
  return { program with aggregate := some aggregate }

/-- `Program::finish`. -/
def finish : Except RegexError Program := do
  let fragment ← okOr program.aggregate .invalid
  let (matched, program) ← program.emit .match noTarget noTarget
  let program ← program.patch fragment.out matched
  return { program with start := fragment.start, finished := true }

/-- A program for these patterns. -/
def compileAll (patterns : List Pattern) : Except RegexError Program := do
  let program ← patterns.foldlM add .new
  program.finish

end Program

end Troe.Grep
