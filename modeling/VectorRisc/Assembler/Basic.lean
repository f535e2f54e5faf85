/-
Module: VectorRisc.Assembler.Basic
Layer: Assembler
Purpose: The assembler: one pass over the lines of a source. A line is an equate, or labels followed by a
  macro call, a directive or an instruction. The lines of a macro are assembled in place of its call,
  with its arguments as equates.
Imports: VectorRisc.Assembler.Code, VectorRisc.Assembler.Data
Trusted boundary: a process whose stack or memory is full ends, and nothing comes of the assembly; a section
  of more than `Bytes.lengthMax` bytes is taken for more than any memory holds
Main exports: Assembler, Assembler.State.directive, Assembler.assembleLine, Assembler.assemble
Open obligations: none
-/
import VectorRisc.Assembler.Code
import VectorRisc.Assembler.Data

namespace VectorRisc

/-- An assembler: the host it works on, an instruction set, and the equates that every assembly starts
    with. -/
structure Assembler where
  host : Assembler.Host
  table : Table := Table.standard
  predefined : Assembler.Equates := []

namespace Assembler

/-! ### Directives -/

/-- The segment that a directive goes on in. -/
def segmentOf? (name : Text) : Option Segment :=
  Segment.all.find? fun s => name = ascii '.' :: s.name

/-- The labels of a list, at least one. -/
def readLabels (args : Text) : Except Error (List Text) :=
  match args.splitOperands with
  | [] => .error .directiveSyntax
  | labels =>
    match labels.find? fun label => !label.isLabel with
    | some label => .error (.labelInvalid label)
    | none => .ok labels

namespace State

/-- Name the label that execution starts at. -/
def entryDirective (s : State) (name args : Text) : Except Failure State :=
  if !s.segment.isCode then s.fail (.directivePlace name)
  else if s.entry.isSome then s.fail .entryDuplicate
  else if !args.isLabel then s.fail (.labelInvalid args)
  else .ok { s with entry := some (args, s.here) }

/-- Name labels of other objects. -/
def externDirective (s : State) (name args : Text) : Except Failure State :=
  if !s.segment.isCode then s.fail (.directivePlace name)
  else
    match readLabels args with
    | .error e => s.fail e
    | .ok labels => .ok { s with externs := s.externs ++ labels }

/-- Make labels visible to other objects. -/
def globalDirective (s : State) (args : Text) : Except Failure State :=
  match readLabels args with
  | .error e => s.fail e
  | .ok labels => .ok (labels.foldl addGlobal s)

/-- Carry out a directive. `labelled` says that the line starts with a label. -/
def directive (s : State) (name args : Text) (labelled : Bool) : Except Failure State :=
  match segmentOf? name with
  | some segment =>
    if labelled then s.fail .labelSegment
    else if !args.isEmpty then s.fail .directiveSyntax
    else .ok (s.enter segment)
  | none =>
    if !s.started then s.fail .outsideSegment
    else if name = Text.ofString ".kstart" then
      if s.segment = .ktext then .ok { s with kernelStart := true } else s.fail .kernelStart
    else if name = Text.ofString ".entry" then s.entryDirective name args
    else if name = Text.ofString ".extern" then s.externDirective name args
    else if name = Text.ofString ".global" then s.globalDirective args
    else if s.segment.isCode then
      s.fail (if (dataDirective? name).isSome then .directivePlace name else .directiveUnknown name)
    else s.data name args

end State

/-! ### Lines -/

/-- The equate that holds the number of the current line. -/
def lineEquate : Text := Text.ofString "LINENO"

/-- The text up to the first space or tab, and the trimmed text behind it. -/
def splitCommand (line : Text) : Text × Text :=
  let isGap (b : UInt8) : Bool := b = ascii ' ' || b = ascii '\t'
  (line.takeWhile fun b => !isGap b, Text.trim (line.dropWhile fun b => !isGap b).tail)

/-- Carry out an equate: a label that has no text yet, and one word. -/
def State.equate (s : State) (words : List Text) : Except Failure State :=
  match words with
  | [_, name, value] =>
    if !name.isLabel then s.fail .equateSyntax
    else if (s.equates.get? name).isSome then s.fail (.equateDuplicate name)
    else .ok { s with equates := s.equates.set name (s.substitute value) }
  | _ => s.fail .equateSyntax

/-- What is told of an error in the body of a macro: the macro, the line of its body and the line of its
    call. Nothing is told if the process ends. -/
def Failure.inBody (f : Failure) (name : Text) (lineNo : Nat) : Failure :=
  if f.error.isExhausted then f
  else ⟨.located f.state.lineNo f.state.line (.inMacro name lineNo f.error), f.state⟩

/-- Assemble the lines of a macro's body one after the other; `assembleOne` assembles a line under its
    number. -/
def assembleBody (assembleOne : State → Text → Nat → Except Failure State) (name : Text) :
    (lineNo : Nat) → List Text → State → Except Failure State
  | _, [], s => .ok s
  | lineNo, line :: rest, s =>
    let unique := name ++ [ascii '_'] ++ Numeral.natural 10 s.lineNo ++ [ascii '_']
    match assembleOne s (Text.replaceByte (ascii '@') unique line) lineNo with
    | .error f => .error (f.inBody name lineNo)
    | .ok t => assembleBody assembleOne name (lineNo + 1) rest t

/-- Bind the arguments of a macro. -/
def State.bindArgs (s : State) (names values : List Text) : State :=
  { s with
    equates := (names.zip values).foldl (fun e (name, value) => e.set name value) s.equates
    args := names ++ s.args }

/-- Assemble the body of a macro with its arguments as equates, which are gone afterwards whatever the
    result. -/
def callMacro (assembleOne : State → Text → Nat → Except Failure State) (s : State) (name : Text)
    (m : Macro) (values : List Text) : Except Failure State :=
  if values.length ≠ m.args.length then s.fail .macroSyntax
  else
    let equates := s.equates
    let args := s.args
    match assembleBody assembleOne name m.lineNo m.lines (s.bindArgs m.args values) with
    | .ok t => .ok { t with equates, args }
    | .error f => .error ⟨f.error, { f.state with equates, args }⟩

/-- Assemble a line from which expressions, equates and labels are gone: a macro call, a directive or
    an instruction. -/
def assembleCommand (assembleOne : State → Text → Nat → Except Failure State) (s : State)
    (line : Text) (labelled : Bool) : Except Failure State :=
  let (word, rest) := splitCommand line
  match s.macros.lookup word with
  | some m => callMacro assembleOne s word m rest.splitOperands
  | none =>
    if word.head? = some (ascii '.') then s.directive word rest labelled
    else if !s.started then s.fail .outsideSegment
    else s.instruction line

/-- Assemble a line without comment under its number, with room on the stack for `depth` nested lines. -/
def assembleLine : (depth : Nat) → State → Text → Nat → Except Failure State
  | 0, s, _, _ => s.fail (.exhausted .stack)
  | depth + 1, s, line, lineNo =>
    if line.isEmpty then .ok s
    else
      let s := { s with equates := s.equates.set lineEquate (Numeral.natural 10 lineNo) }
      match replaceExpressions (evalExpression s.host s.equates) line with
      | .error e => s.fail e
      | .ok line =>
        let words := line.fields
        if words.head? = some (Text.ofString ".equ") then s.equate words
        else
          let (marks, rest) := leadingLabels (s.substitute line)
          match s.declareAll marks with
          | .error f => .error f
          | .ok s =>
            match rest with
            | .error e => s.fail e
            | .ok line =>
              if line.isEmpty then .ok s
              else assembleCommand (assembleLine depth) s line !marks.isEmpty

/-! ### Macro definitions -/

/-- The arguments of a macro definition, between commas and blanks. -/
def macroArgs (words : List Text) : List Text :=
  let isGap (b : UInt8) : Bool := b = ascii ',' || b = ascii ' ' || b = ascii '\t'
  let text := Text.join [ascii ' '] words
  cut isGap [] text
where
  /-- The pieces between gaps that are not empty. -/
  cut (isGap : UInt8 → Bool) : (held : Text) → Text → List Text
    | held, [] => if held.isEmpty then [] else [held.reverse]
    | held, b :: rest =>
      if isGap b then if held.isEmpty then cut isGap [] rest else held.reverse :: cut isGap [] rest
      else cut isGap (b :: held) rest

/-- Start a macro whose body follows. -/
def State.openDefinition (s : State) (words : List Text) : Except Failure State :=
  if s.openMacro.isSome then s.fail .macroNesting
  else
    match words with
    | _ :: name :: args =>
      if !name.isLabel then s.fail .macroSyntax
      else if (s.macros.lookup name).isSome then s.fail .macroDuplicate
      else
        .ok { s with
          macros := s.macros ++ [(name, { lineNo := s.lineNo + 1, args := macroArgs args })]
          openMacro := some name }
    | _ => s.fail .macroSyntax

/-- Add a line to the body of the macro being read. -/
def State.addBodyLine (s : State) (name line : Text) : State :=
  { s with
    macros := s.macros.map fun (n, m) =>
      if n = name then (n, { m with lines := m.lines ++ [line] }) else (n, m) }

/-- Assemble one line of the source: start, end or continue a macro's body, or assemble the line. -/
def assembleSourceLine (s : State) (text : Text) : Except Failure State :=
  let line := clean text
  let lineNo := s.lineNo + 1
  let s := { s with lineNo := lineNo, line := line, log := s.log.push (.line lineNo text) }
  let words := line.fields
  if words.head? = some (Text.ofString ".macro") then s.openDefinition words
  else if words.head? = some (Text.ofString ".endm") then
    if s.openMacro.isSome then .ok { s with openMacro := none } else s.fail .macroEnd
  else
    match s.openMacro with
    | some name => .ok (s.addBodyLine name line)
    | none => assembleLine (s.host.stack + 1) s line lineNo

/-- Assemble the lines of a source one after the other. -/
def assembleLines : List Text → State → Except Failure State
  | [], s => .ok s
  | text :: rest, s =>
    match assembleSourceLine s text with
    | .error f => .error f
    | .ok t => assembleLines rest t

/-- The error names the line it is at. -/
def Error.isLocated : Error → Bool
  | .located .. => true
  | _ => false

/-- An error with the current line, unless it names one already or is none. -/
def locate (s : State) (e : Error) : Error :=
  if e.isLocated || e.isExhausted then e else .located s.lineNo s.line e

/-- The state before the first line. -/
def start (a : Assembler) : State :=
  { host := a.host
    table := a.table
    equates := a.predefined.foldl (fun e (name, value) => e.set name value)
      [(lineEquate, [ascii '0'])] }

/-- Some section is longer than what can be allocated. -/
def State.oversized (s : State) : Bool :=
  s.sections.toList.any fun bytes => Bytes.lengthMax < bytes.size

/-- What comes of an assembly that stops at an error. Sections only grow, so if one is too long the process
    has ended before. -/
def Failure.told (f : Failure) : Error :=
  if f.state.oversized then .exhausted .memory else locate f.state f.error

/-- Assemble a source into a relocatable object. The state at the end, or at the point of failure,
    comes with it. -/
def assemble (a : Assembler) (source : Text) : State × Except Error ObjectFile :=
  let s := a.start
  if source.hasLongLine then (s, .error (locate s .lineTooLong))
  else
    let lines := source.lines
    match assembleLines lines { s with labels := labelsOf lines } with
    | .error f => (f.state, .error f.told)
    | .ok s =>
      if s.oversized then (s, .error (.exhausted .memory))
      else if s.openMacro.isSome then (s, .error (locate s .macroOpen))
      else
        let (s, result) := s.finish
        (s, result.mapError (locate s))

end Assembler

end VectorRisc
