/-
Module: VectorRisc.Command.Host
Layer: Command
Purpose: The host that commands assemble on. Its interpreter runs the programs of expressions that the
  expression evaluator understands; a text becomes UTF-16 code unit by code unit.
Imports: VectorRisc.Assembler.Basic, VectorRisc.Expression.Eval
Trusted boundary: this host stands in for an interpreter of the whole expression language, of which it knows
  a part and refuses the rest, and for an encoder of its own. Nothing is proved of assemblies from how it
  evaluates: what is proved of an assembler holds on every host
Main exports: Command.host, Command.assembler
Open obligations: none
-/
import VectorRisc.Assembler.Basic
import VectorRisc.Expression.Eval

namespace VectorRisc

namespace Command

/-- A value of the assembler in an expression. -/
def ofAssembler : Assembler.Value → Expression.Value
  | .int n => .int n
  | .float pattern => .float (Expression.floatOf pattern)
  | .bool b => .bool b
  | .other => .none

/-- The value of an expression for the assembler. -/
def toAssembler : Expression.Value → Assembler.Value
  | .int n => .int n
  | .float x => .float x.toBits.toNat
  | .bool b => .bool b
  | _ => .other

/-- The expression of a program that gives the name of the result its value. -/
def expressionOf (program : Text) : Text :=
  (program.drop (Assembler.resultName.length + 1)).dropLast

/-- Run the program of an expression. Only the name of the result can be asked for afterwards. -/
def run (predeclared : Assembler.Scope) (program : Text) : Except Text Assembler.Scope :=
  match Expression.evaluate (fun name => (predeclared name).map ofAssembler) (expressionOf program) with
  | none => .error (Text.ofString "expression without a value")
  | some value =>
    .ok fun name => if name = Assembler.resultName then some (toAssembler value) else none

/-- The host of commands. -/
def host : Assembler.Host where
  run := run
  utf16 text := .ok text.toUtf16
  stack := 1000000

/-- The assembler of commands, with the equates that every source starts with. -/
def assembler (predefined : Assembler.Equates) : Assembler := { host := host, predefined := predefined }

end Command

end VectorRisc
