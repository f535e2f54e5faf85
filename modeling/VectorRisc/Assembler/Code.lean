/-
Module: VectorRisc.Assembler.Code
Layer: Assembler
Purpose: Instruction lines. A pseudo-instruction becomes one or more real ones; each real one becomes a
  word of the current code segment, and a label operand a request for a relocation.
Imports: VectorRisc.Assembler.State
Trusted boundary: none
Main exports: Assembler.slices, Assembler.loadSlices, Assembler.realInstructions, Assembler.State.instruction
Open obligations: none
-/
import VectorRisc.Assembler.State

namespace VectorRisc

namespace Assembler

/-! ### Immediates in slices -/

/-- The four slices of a value with their numbers, least significant first. -/
def slices (value : UInt64) : List (Nat × UInt16) :=
  [0, 1, 2, 3].map fun n => (n, sliceOf value n)

/-- The slices needed to load a value. The first one extends its sign over the register, so a later
    one is needed only where it differs from what that left behind. -/
def loadSlices (value : UInt64) : List (Nat × UInt16) :=
  let extended := (signExtend (sliceOf value 0).toUInt64 16).toUInt64
  (slices value).filter fun (n, slice) => n = 0 || slice ≠ sliceOf extended n

/-! ### Pseudo-instructions -/

/-- A real instruction of an expansion, by name. -/
structure Step where
  name : String
  rd : UInt8 := 0
  rs : UInt8 := 0
  rt : UInt8 := 0
  imm : Int64 := 0
deriving DecidableEq, Repr, Inhabited

/-- The name of the instruction that loads a slice. -/
def sliceName : Nat → String
  | 0 => "li.0"
  | 1 => "li.1"
  | 2 => "li.2"
  | _ => "li.3"

/-- The instruction that loads a slice. -/
def sliceStep (rd : UInt8) (n : Nat) (slice : UInt16) : Step :=
  { name := sliceName n, rd := rd, imm := slice.toUInt64.toInt64 }

/-- The real instructions that a pseudo-instruction stands for. -/
def steps? (x : Instruction) : Option (List Step) :=
  let name := x.mnemonic.name
  let is (s : String) : Bool := name = Text.ofString s
  if is "not" then some [{ name := "nor", rd := x.rd, rs := x.rs, rt := Register.zero }]
  else if is "neg" then some [{ name := "sub", rd := x.rd, rs := Register.zero, rt := x.rs }]
  else if is "negw" then some [{ name := "subw", rd := x.rd, rs := Register.zero, rt := x.rs }]
  else if is "mov" then some [{ name := "or", rd := x.rd, rs := x.rs, rt := Register.zero }]
  else if is "movw" then some [{ name := "addiw", rt := x.rd, rs := x.rs }]
  else if is "push" then
    some [{ name := "addi", rt := Register.sp, rs := Register.sp, imm := -8 },
      { name := "sd", rt := x.rs, rs := Register.sp }]
  else if is "pop" then
    some [{ name := "ld", rt := x.rd, rs := Register.sp },
      { name := "addi", rt := Register.sp, rs := Register.sp, imm := 8 }]
  else if is "ret" then some [{ name := "jr", rs := Register.ra }]
  else if is "la" then
    let value := if x.label.isEmpty then x.imm.toUInt64 else 0
    some ((slices value).map fun (n, slice) => sliceStep x.rd n slice)
  else if is "li" then
    some ((loadSlices x.imm.toUInt64).map fun (n, slice) => sliceStep x.rd n slice)
  else none

/-- The instruction of a step. The set has to have it as a real one. -/
def Step.instruction (tb : Table) (step : Step) : Except Error Instruction :=
  let name := Text.ofString step.name
  match tb.lookup? name with
  | some m =>
    if m.isPseudo then .error (.instruction (.mnemonicUnknown name))
    else .ok { mnemonic := m, rd := step.rd, rs := step.rs, rt := step.rt, imm := step.imm }
  | none => .error (.instruction (.mnemonicUnknown name))

/-- The instructions of some steps. -/
def instructionsOf (tb : Table) : List Step → Except Error (List Instruction)
  | [] => .ok []
  | step :: rest =>
    match step.instruction tb with
    | .error e => .error e
    | .ok x => (instructionsOf tb rest).map (x :: ·)

/-- What a label operand of a layout is patched into. -/
def patchOf : Format → Patch
  | .j => .jump
  | .ei => .slice
  | .pseudo => .address
  | _ => .branch

/-- The real instructions of an instruction. -/
def realInstructions (tb : Table) (x : Instruction) : Except Error (List Instruction) :=
  if !x.mnemonic.isPseudo then .ok [x]
  else
    match steps? x with
    | none => .error (.instruction (.pseudoWord x.mnemonic.name))
    | some steps => instructionsOf tb steps

/-- The words of some instructions. -/
def encodeAll : List Instruction → Except Error (List Word)
  | [] => .ok []
  | x :: rest =>
    match x.encode with
    | .error e => .error (.instruction e)
    | .ok w => (encodeAll rest).map (w :: ·)

/-- The bytes of some words. -/
def wordBytes (codes : List Word) : List UInt8 := codes.flatMap fun w => Bytes.ofNat 4 w.toNat

namespace State

/-- The relocation that a label operand asks for, at an offset of the current segment. -/
def request (s : State) (x : Instruction) (offset : UInt64) : Request where
  relocation :=
    { position := offset
      label := x.label
      kind := (RelocationKind.ofPatch (patchOf x.mnemonic.format)).placedIn s.segment
      scope := if s.externs.contains x.label then .global else .internal }
  source := s.here

/-- The words a line was written with: the mnemonic and the operands behind as many bytes. -/
def wordsOf (name line : Text) : List Text := name :: Text.splitOperands (line.drop name.length)

/-- What an instruction line becomes: the instruction as it is written, and the real instructions it
    stands for with their words. -/
structure Coded where
  written : Instruction
  parts : List Instruction
  codes : List Word
deriving DecidableEq, Repr, Inhabited

/-- Understand an instruction line. -/
def codedLine (s : State) (line : Text) : Except Error Coded :=
  if !s.segment.isCode then .error .instructionInData
  else if s.filled % 4 ≠ 0 then .error .textAlign
  else
    match Instruction.parse s.table Instruction.literal line with
    | .error e => .error (.instruction e)
    | .ok x =>
      match realInstructions s.table x with
      | .error e => .error e
      | .ok parts => (encodeAll parts).map fun codes => ⟨x, parts, codes⟩

/-- The events of words at an offset of the current segment. -/
def codedEvents (s : State) (offset : UInt64) (c : Coded) : List Event :=
  (List.range c.codes.length).zip (c.codes.zip c.parts) |>.map fun (n, code, part) =>
    Event.coded s.lineNo s.segment (offset + 4 * UInt64.ofNat n) code part

/-- Write the words of an instruction line and note what the line asks for. -/
def place (s : State) (line : Text) (c : Coded) : State :=
  let offset := UInt64.ofNat s.filled
  let s := s.emit (Bytes.ofList (wordBytes c.codes))
  let events := (s.codedEvents offset c).toArray
  let request := s.request c.written offset
  let statement := ⟨s.lineNo, s.segment, offset, wordsOf c.written.mnemonic.name line, c.codes⟩
  { s with
    requests := if c.written.label.isEmpty then s.requests else s.requests.push request
    listing := s.listing.push statement
    log := s.log ++ events }

/-- Assemble an instruction line. -/
def instruction (s : State) (line : Text) : Except Failure State :=
  match s.codedLine line with
  | .error e => s.fail e
  | .ok c => .ok (s.place line c)

end State

end Assembler

end VectorRisc
