/-
Module: VectorRisc.Assembler.Error
Layer: Assembler
Purpose: What can go wrong while a source is assembled, and how it is told. The outermost error names the
  source line; an error inside a macro names the macro and the line of its body besides.
Imports: VectorRisc.Instruction.Basic
Trusted boundary: none
Main exports: Assembler.Error, Assembler.Error.message
Open obligations: none
-/
import VectorRisc.Instruction.Basic

namespace VectorRisc

namespace Assembler

/-- What a process can run out of. -/
inductive Resource where
  | stack
  | memory
deriving DecidableEq, Repr, Inhabited

/-- Why a source does not assemble. -/
inductive Error where
  /-- An error at a line of the source. -/
  | located (lineNo : Nat) (line : Text) (cause : Error)
  /-- An error at a line of a macro's body. -/
  | inMacro (name : Text) (lineNo : Nat) (cause : Error)
  | instruction (cause : Instruction.Error)
  | lineTooLong
  | outsideSegment
  | directiveUnknown (name : Text)
  | directivePlace (name : Text)
  | directiveSyntax
  | valueMissing (name : Text)
  | instructionInData
  | textAlign
  | alignInvalid (n : Nat)
  | repeatNone
  | kernelStart
  | negativeCount (value : Int64)
  | noRoom (count stride : Nat)
  | floatRange (word : Text)
  | scalarRange (word : Text) (bits : Nat)
  | stringSyntax (text : Text)
  | labelDuplicate (name : Text)
  | labelSegment
  | labelInvalid (name : Text)
  | labelMissing (name : Text)
  | entryDuplicate
  | equateSyntax
  | equateDuplicate (name : Text)
  | macroSyntax
  | macroNesting
  | macroDuplicate
  | macroOpen
  | macroEnd
  /-- An expression without its closing parenthesis, or one whose value no source can hold. -/
  | expression (text : Text)
  /-- An expression whose program fails, and why it does. -/
  | evaluation (cause : Text)
  /-- No error of the source: the process ends before there is a result, since it has run out of
      something. Nobody tells where. -/
  | exhausted (what : Resource)
deriving DecidableEq, Repr, Inhabited

/-- The text of an error. -/
def Error.message : Error → String
  | .located lineNo line cause => s!"line {shown lineNo} '{line.display}' {cause.message}"
  | .inMacro name lineNo cause => s!"macro {name.display} line {shown lineNo} {cause.message}"
  | .instruction cause => cause.message
  | .lineTooLong => "bufio.Scanner: token too long"
  | .outsideSegment => "only .data and .text are allowed outside a segment"
  | .directiveUnknown name => s!"directive unknown: {name.display}"
  | .directivePlace name => s!"directive not allowed in this segment: {name.display}"
  | .directiveSyntax => "directive syntax"
  | .valueMissing name => s!"directive syntax: {name.display} needs a value"
  | .instructionInData => "instruction in a data segment"
  | .textAlign => "text cursor not word aligned"
  | .alignInvalid n => s!".align must be a power of two from 1 to 256: {plain n}"
  | .repeatNone => ".repeat without a previous scalar"
  | .kernelStart => ".kstart outside of .ktext"
  | .negativeCount value => s!"value does not fit: {plain value.toInt}"
  | .noRoom count stride => s!"value does not fit: {plain count} x {plain stride} bytes"
  | .floatRange word => s!"value does not fit: {word.display}"
  | .scalarRange word bits => s!"value does not fit: {word.display} in {plain bits} bits"
  | .stringSyntax text => s!"string literal malformed: {text.display}"
  | .labelDuplicate name => s!"label duplicated: {name.display}"
  | .labelSegment => "label on a segment directive"
  | .labelInvalid name => s!"'{name.display}' is not a valid label"
  | .labelMissing name => s!"label {name.display} missing"
  | .entryDuplicate => ".entry duplicated"
  | .equateSyntax => ".equ syntax"
  | .equateDuplicate name => s!".equ duplicated: {name.display}"
  | .macroSyntax => ".macro syntax"
  | .macroNesting => ".macro in .macro prohibited"
  | .macroDuplicate => ".macro duplicated"
  | .macroOpen => ".macro without .endm"
  | .macroEnd => ".endm without .macro"
  | .expression text => s!"$({text.display}) is not a valid expression"
  | .evaluation cause => cause.display
  | .exhausted .stack => "stack overflow"
  | .exhausted .memory => "out of memory"

/-- The error is none: the process has ended. -/
def Error.isExhausted : Error → Bool
  | .exhausted _ => true
  | _ => false

end Assembler

end VectorRisc
