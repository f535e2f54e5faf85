/-
Module: VectorRisc.Assembler.State
Layer: Assembler
Purpose: The state of an assembly: the sections and symbols built so far, labels that wait for the next
  item, equates and macros. Labels bind to the next item of their segment, after its alignment.
Imports: VectorRisc.Assembler.Listing, VectorRisc.Assembler.Source, VectorRisc.Object.File
Trusted boundary: none
Main exports: Assembler.Macro, Assembler.Event, Assembler.State, Assembler.Failure,
  Assembler.State.declare, Assembler.State.bindLabels, Assembler.State.emit, Assembler.State.enter,
  Assembler.State.finish
Open obligations: none
-/
import VectorRisc.Assembler.Listing
import VectorRisc.Assembler.Source
import VectorRisc.Object.File

namespace VectorRisc

namespace Assembler

/-- A macro: the number of the first line of its body, its arguments and its lines. -/
structure Macro where
  lineNo : Nat
  args : List Text
  lines : List Text := []
deriving DecidableEq, Repr, Inhabited

/-- A source line that a later check reports. -/
structure Reference where
  lineNo : Nat
  line : Text
deriving DecidableEq, Repr, Inhabited

/-- A step of an assembly that has been done. -/
inductive Event where
  | line (lineNo : Nat) (text : Text)
  | bound (lineNo : Nat) (label : Text) (segment : Segment) (offset : UInt64)
  | coded (lineNo : Nat) (segment : Segment) (offset : UInt64) (code : Word) (x : Instruction)
deriving DecidableEq, Repr, Inhabited

/-- An event as a line of a log. -/
def Event.render : Event → String
  | .line lineNo text => s!"{plain lineNo}: {text.display}"
  | .bound lineNo label segment offset =>
    s!"{plain lineNo}: {label.display} = {segment.name.display}+{hexed offset.toNat}"
  | .coded lineNo segment offset code x =>
    s!"{plain lineNo}: {segment.name.display}+{hexed offset.toNat}: {hex8 code.toNat} " ++
      x.render.display

/-- A relocation with the source line that asked for it. -/
structure Request where
  relocation : Relocation
  source : Reference
deriving DecidableEq, Repr, Inhabited

/-- The state of an assembly. -/
structure State where
  host : Host
  table : Table
  equates : Equates
  macros : List (Text × Macro) := []
  /-- The macro whose body is being read. -/
  openMacro : Option Text := none
  listing : Listing := #[]
  sections : PerSegment ByteArray := PerSegment.ofFn fun _ => ByteArray.empty
  symbols : Array Symbol := #[]
  requests : Array Request := #[]
  kernelStart : Bool := false
  segment : Segment := .text
  /-- A segment directive has been seen. -/
  started : Bool := false
  /-- The alignment that `.align` asks for. -/
  align : Option Nat := none
  /-- Labels that wait for the next item. -/
  pending : List Mark := []
  globals : List (Text × Reference) := []
  externs : List Text := []
  /-- The labels of the whole source. -/
  labels : List Text := []
  /-- The arguments of the macros being expanded. -/
  args : List Text := []
  entry : Option (Text × Reference) := none
  /-- The bytes of the last scalar, for `.repeat`. -/
  lastScalar : Option (List UInt8) := none
  lineNo : Nat := 0
  line : Text := []
  log : Array Event := #[]
deriving Inhabited

/-- An error, and the state in which it arose. -/
structure Failure where
  error : Error
  state : State

namespace State

/-- Stop at an error. -/
def fail (s : State) (e : Error) : Except Failure State := .error ⟨e, s⟩

/-- The current source line. -/
def here (s : State) : Reference := ⟨s.lineNo, s.line⟩

/-- The number of bytes in the current segment. -/
def filled (s : State) : Nat := (s.sections.get s.segment).size

/-- The name is defined by a bound label. -/
def isDefined (s : State) (name : Text) : Bool := s.symbols.any fun sym => sym.label = name

/-- The text that stands for a name: its equate, unless the source has a label of that name and it is
    no argument of a macro being expanded. -/
def valueOf? (s : State) (name : Text) : Option Text :=
  match s.equates.get? name with
  | none => none
  | some value => if !s.labels.contains name || s.args.contains name then some value else none

/-- The text with the names of equates replaced. -/
def substitute (s : State) (t : Text) : Text := Assembler.substitute s.valueOf? t

/-- A label for the next item. -/
def declare (s : State) (mark : Mark) : Except Failure State :=
  if !s.started then s.fail .outsideSegment
  else if s.isDefined mark.name || s.pending.any fun m => m.name = mark.name then
    s.fail (.labelDuplicate mark.name)
  else .ok { s with pending := s.pending ++ [mark] }

/-- Labels for the next item, in order. -/
def declareAll (s : State) : List Mark → Except Failure State
  | [] => .ok s
  | mark :: rest =>
    match s.declare mark with
    | .error f => .error f
    | .ok s => s.declareAll rest

/-- The symbol of a label at an offset of a segment. -/
def symbolOf (segment : Segment) (offset : UInt64) (mark : Mark) : Symbol :=
  ⟨mark.name, SymbolKind.ofSegment segment, if mark.global then .global else .internal, offset⟩

/-- Bind the waiting labels to the end of the current segment. -/
def bindLabels (s : State) : State :=
  let offset := UInt64.ofNat s.filled
  { s with
    symbols := s.symbols ++ (s.pending.map (symbolOf s.segment offset)).toArray
    log := s.log ++ (s.pending.map fun m => Event.bound s.lineNo m.name s.segment offset).toArray
    pending := [] }

/-- Append bytes to the current segment. -/
def append (s : State) (bytes : ByteArray) : State :=
  { s with sections := s.sections.modify s.segment (· ++ bytes) }

/-- The zeros missing to a multiple of `align`. -/
def padding (size align : Nat) : Nat := (align - size % align) % align

/-- Fill the current segment with zeros up to a multiple of `align`. -/
def padTo (s : State) (align : Nat) : State := s.append (Bytes.zeros (padding s.filled align))

/-- Append an item to the current segment; the waiting labels bind to its start. -/
def emit (s : State) (bytes : ByteArray) : State := s.bindLabels.append bytes

/-- Go on in a segment. Waiting labels stay in the one they were declared in; a data segment starts
    with its natural alignment and no value to repeat. -/
def enter (s : State) (segment : Segment) : State :=
  let s := if s.started then s.bindLabels else s
  let s := { s with segment := segment, started := true }
  if segment.isCode then s else { s with align := none, lastScalar := none }

/-- Remember the current line as the one that makes a label global. -/
def addGlobal (s : State) (label : Text) : State :=
  { s with globals := (s.globals.filter fun g => g.1 ≠ label) ++ [(label, s.here)] }

/-! ### The end of a source -/

/-- An error at the line of a reference. -/
def missing (source : Reference) (label : Text) : Error :=
  .located source.lineNo source.line (.labelMissing label)

/-- The first label made global that is not defined, in byte order. -/
def missingGlobal? (s : State) : Option Error :=
  (Text.sort (s.globals.map (·.1))).findSome? fun label =>
    if s.isDefined label then none
    else (s.globals.lookup label).map fun source => missing source label

/-- The first relocation whose label has to be in the source and is not. -/
def missingLabel? (s : State) : Option Error :=
  s.requests.toList.findSome? fun r =>
    if r.relocation.scope ≠ .internal || s.isDefined r.relocation.label then none
    else some (missing r.source r.relocation.label)

/-- The symbols with the scope that `.global` gives them. -/
def scopedSymbols (s : State) : List Symbol :=
  s.symbols.toList.map fun sym =>
    if s.globals.any fun g => g.1 = sym.label then { sym with scope := .global } else sym

/-- The object of what has been assembled, once every label it needs is defined. -/
def finish (s : State) : State × Except Error ObjectFile :=
  let s := if s.started then s.bindLabels else s
  let file : ObjectFile :=
    { kind := .relocatable
      kernelStart := s.kernelStart
      sections := PerSegment.ofFn fun seg => { addr := seg.base, data := s.sections.get seg }
      relocations := s.requests.toList.map Request.relocation
      symbols := s.scopedSymbols }
  let result : Except Error ObjectFile :=
    match s.missingGlobal?.or s.missingLabel? with
    | some e => .error e
    | none =>
      match s.entry with
      | none => .ok file
      | some (label, source) =>
        match file.symbol? label with
        | none => .error (missing source label)
        | some sym => .ok { file with entry := file.addressOf sym }
  (s, result)

end State

end Assembler

end VectorRisc
