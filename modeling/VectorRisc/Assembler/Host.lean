/-
Module: VectorRisc.Assembler.Host
Layer: Assembler
Purpose: What an assembler leaves to others. Expressions are programs that an interpreter runs, text is put
  into UTF-16 by an encoder, and calls of macros within macros take up the stack of the process. An
  assembler works on any host that offers these.
Imports: VectorRisc.Numeral.Ieee
Trusted boundary: an interpreter and an encoder answer the same question in the same way each time
Main exports: Assembler.Value, Assembler.Host, Assembler.Host.result
Open obligations: none
-/
import VectorRisc.Numeral.Ieee

namespace VectorRisc

namespace Assembler

/-- A value that goes into a program or comes out of one. -/
inductive Value where
  | int (n : Int)
  /-- A float, by its 64-bit pattern. -/
  | float (pattern : Nat)
  | bool (b : Bool)
  /-- A value that no source can hold. -/
  | other
deriving DecidableEq, Repr, Inhabited

/-- What names stand for. -/
abbrev Scope := Text → Option Value

/-- A host of assemblies. -/
structure Host where
  /-- Run a program over the names that it may use: what its own names stand for at the end, or why it
      fails. -/
  run : (predeclared : Scope) → (program : Text) → Except Text Scope
  /-- The bytes of a text in UTF-16, or why it has none. -/
  utf16 : Text → Except Text (List UInt8)
  /-- The number of macro calls that may stand within each other before the stack is full. -/
  stack : Nat
deriving Inhabited

/-- The name that an expression's program gives to its result. -/
def resultName : Text := Text.ofString "rc"

/-- The program of an expression. -/
def programOf (expression : Text) : Text := resultName ++ [ascii '='] ++ expression ++ [ascii '\n']

/-- What an expression comes to over some names: nothing if its program does not give the name of the
    result a value. -/
def Host.result (host : Host) (predeclared : Scope) (expression : Text) : Except Text (Option Value) :=
  (host.run predeclared (programOf expression)).map fun names => names resultName

/-- A value as the text that stands for it in a source: integers of 64 bits, signed or unsigned, finite
    floats, and 1 and 0 for truth values. -/
def Value.text? : Value → Option Text
  | .int n =>
    if -Numeral.signedLimit ≤ n && n ≤ Numeral.unsignedMax then some (Numeral.decimal n) else none
  | .float pattern =>
    if Ieee.double.infinity ≤ pattern % Ieee.double.signBit then none
    else some (Ieee.double.write pattern)
  | .bool b => some [if b then ascii '1' else ascii '0']
  | .other => none

end Assembler

end VectorRisc
