/-
Module: VectorRisc.Platform
Layer: Platform
Purpose: The equates that describe the machine to the sources written for it: its address map, the
  numbers of its services and the flags for opening files.
Imports: VectorRisc.Files.Flags, VectorRisc.Machine.Service, VectorRisc.Memory.Basic,
  VectorRisc.Object.Segment
Trusted boundary: none
Main exports: Platform.equates
Open obligations: none
-/
import VectorRisc.Files.Flags
import VectorRisc.Machine.Service
import VectorRisc.Memory.Basic
import VectorRisc.Object.Segment

namespace VectorRisc

namespace Platform

/-- An equate whose text is a hexadecimal number. -/
def hexEquate (name : String) (value : UInt64) : Text × Text :=
  (Text.ofString name, Numeral.marked value.toNat)

/-- An equate whose text is a decimal number. -/
def decimalEquate (name : String) (value : Nat) : Text × Text :=
  (Text.ofString name, Numeral.decimal value)

/-- The address map. -/
def addresses : List (Text × Text) :=
  [hexEquate "STACK_SIZE_DEFAULT" Memory.stackDefault,
    hexEquate "TEXT_BASE" Segment.textBase,
    hexEquate "DATA_BASE" Segment.dataBase,
    hexEquate "KTEXT_BASE" Segment.ktextBase,
    hexEquate "KDATA_BASE" Segment.kdataBase,
    hexEquate "STATIC_DATA_MIN" Segment.dataMinimum,
    hexEquate "STACK_TOP" Memory.stackTop]

/-- The service numbers. -/
def services : List (Text × Text) :=
  Service.all.map fun s => decimalEquate ("SYS_" ++ s.name.toUpper) s.code

/-- The flags for opening files. -/
def openFlags : List (Text × Text) :=
  [decimalEquate "O_RDONLY" OpenMode.readOnly.toNat,
    decimalEquate "O_WRONLY" OpenMode.writeOnly.toNat,
    decimalEquate "O_RDWR" OpenMode.readWrite.toNat,
    decimalEquate "O_CREATE" OpenMode.createBit.toNat,
    decimalEquate "O_TRUNC" OpenMode.truncateBit.toNat,
    decimalEquate "O_APPEND" OpenMode.appendBit.toNat]

/-- All equates of the machine, in the byte order of their names. -/
def equates : List (Text × Text) :=
  (addresses ++ services ++ openFlags).mergeSort fun a b => Text.atMost a.1 b.1

end Platform

end VectorRisc
