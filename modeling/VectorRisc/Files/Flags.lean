/-
Module: VectorRisc.Files.Flags
Layer: Files
Purpose: The flags with which a program opens a file, as a number and as what they ask for.
Imports: VectorRisc.Text.Basic
Trusted boundary: none
Main exports: OpenMode, OpenMode.ofFlags?, OpenMode.flags
Open obligations: none
-/
import VectorRisc.Text.Basic

namespace VectorRisc

/-- What opening a file asks for. At least one of `read` and `write` holds. -/
structure OpenMode where
  read : Bool
  write : Bool
  create : Bool := false
  truncate : Bool := false
  append : Bool := false
deriving DecidableEq, Repr, Inhabited

namespace OpenMode

/-- The number that asks for reading only. -/
def readOnly : UInt64 := 0x0

/-- The number that asks for writing only. -/
def writeOnly : UInt64 := 0x1

/-- The number that asks for both. -/
def readWrite : UInt64 := 0x2

/-- The bits that hold one of the three. -/
def directionMask : UInt64 := 0x3

/-- The bit that creates a missing file. -/
def createBit : UInt64 := 0x40

/-- The bit that empties the file. -/
def truncateBit : UInt64 := 0x200

/-- The bit that puts every write at the end. -/
def appendBit : UInt64 := 0x400

/-- All bits that mean something. -/
def knownBits : UInt64 := directionMask ||| createBit ||| truncateBit ||| appendBit

/-- The mode of open flags; unknown bits and the fourth direction have none. -/
def ofFlags? (flags : UInt64) : Option OpenMode :=
  let direction := flags &&& directionMask
  if flags &&& ~~~knownBits ≠ 0 || direction = directionMask then none
  else
    some {
      read := direction ≠ writeOnly
      write := direction ≠ readOnly
      create := flags &&& createBit ≠ 0
      truncate := flags &&& truncateBit ≠ 0
      append := flags &&& appendBit ≠ 0 }

/-- The flags of a mode. -/
def flags (m : OpenMode) : UInt64 :=
  (if m.read then if m.write then readWrite else readOnly else writeOnly) |||
    (if m.create then createBit else 0) ||| (if m.truncate then truncateBit else 0) |||
    (if m.append then appendBit else 0)

end OpenMode

end VectorRisc
