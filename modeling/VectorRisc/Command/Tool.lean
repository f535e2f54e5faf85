/-
Module: VectorRisc.Command.Tool
Layer: Command
Purpose: The commands by name.
Imports: VectorRisc.Command.Simulate
Trusted boundary: none
Main exports: Command.Tool, Command.Tool.ofName?, Command.Tool.run
Open obligations: none
-/
import VectorRisc.Command.Simulate

namespace VectorRisc

namespace Command

/-- A command. -/
inductive Tool where
  | build
  | simulate
deriving DecidableEq, Repr, Inhabited

namespace Tool

/-- The command with a name. -/
def ofName? (name : Text) : Option Tool :=
  if name = Text.ofString "sra-asm" then some .build
  else if name = Text.ofString "sra-sim" then some .simulate
  else none

/-- Call a command. A program that is run has a budget of instructions. -/
def run (tool : Tool) (call : Call) (disk : Disk) (seed : UInt64) (budget : Nat) : Result :=
  match tool with
  | .build => Command.build call disk
  | .simulate => Command.simulate call disk seed budget

end Tool

end Command

end VectorRisc
