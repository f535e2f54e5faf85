/-
Module: VectorRisc.Machine.Registers
Layer: Machine
Purpose: The registers of the machine. Scalar register zero reads as zero and ignores writes.
Imports: VectorRisc.Instruction.Register, VectorRisc.Machine.Lanes
Trusted boundary: none
Main exports: Registers, Registers.get, Registers.set, Registers.vector, Registers.setVector,
  Registers.kernel?, Registers.setKernel, Registers.dump
Open obligations: none
-/
import VectorRisc.Instruction.Register
import VectorRisc.Machine.Lanes

namespace VectorRisc

/-- Scalar, vector and kernel registers, the pair that products and quotients go to, and the program
    counter. -/
structure Registers where
  scalars : Vector UInt64 32 := Vector.replicate 32 0
  hi : UInt64 := 0
  lo : UInt64 := 0
  pc : UInt64 := 0
  vectors : Vector Lanes 32 := Vector.replicate 32 Lanes.zero
  kernels : Vector UInt64 6 := Vector.replicate 6 0
deriving DecidableEq, Inhabited

namespace Registers

/-- The place of a register; the number is taken modulo 32. -/
def place (r : UInt8) : Fin 32 := ⟨r.toNat % 32, by omega⟩

/-- Read a scalar register. -/
def get (regs : Registers) (r : UInt8) : UInt64 := regs.scalars[place r]

/-- Write a scalar register. A write to register zero is dropped. -/
def set (regs : Registers) (r : UInt8) (value : UInt64) : Registers :=
  if r = Register.zero then regs
  else { regs with scalars := regs.scalars.set (place r) value }

/-- Read a vector register. -/
def vector (regs : Registers) (r : UInt8) : Lanes := regs.vectors[place r]

/-- Write a vector register. -/
def setVector (regs : Registers) (r : UInt8) (value : Lanes) : Registers :=
  { regs with vectors := regs.vectors.set (place r) value }

/-- Read a kernel register, if there is one of that number. -/
def kernel? (regs : Registers) (r : UInt8) : Option UInt64 := regs.kernels[r.toNat]?

/-- Write a kernel register; there is none beyond the last. -/
def setKernel (regs : Registers) (r : UInt8) (value : UInt64) : Registers :=
  { regs with kernels := regs.kernels.setIfInBounds r.toNat value }

/-- One register of a dump: its name right-aligned, and all its digits. -/
def dumpLine (name : Text) (value : UInt64) : Text :=
  List.replicate (5 - name.length) (ascii ' ') ++ name ++ Text.ofString ": " ++
    Numeral.hexPadded 16 value.toNat ++ [ascii '\n']

/-- The scalar state as text, one register a line. -/
def dump (regs : Registers) : Text :=
  dumpLine (Text.ofString "pc") regs.pc ++
    (Register.scalarNames.zip regs.scalars.toList).flatMap (fun (name, value) => dumpLine name value) ++
    dumpLine (Text.ofString "hi") regs.hi ++ dumpLine (Text.ofString "lo") regs.lo

end Registers

end VectorRisc
