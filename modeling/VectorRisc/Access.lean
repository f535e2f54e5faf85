/-
Module: VectorRisc.Access
Layer: Object
Purpose: Access permissions of a range of memory: to read, to write, to execute.
Imports: VectorRisc.Text.Basic
Trusted boundary: none
Main exports: Access, Access.allows, Access.name
Open obligations: none
-/
import VectorRisc.Text.Basic

namespace VectorRisc

/-- A set of permissions. -/
structure Access where
  read : Bool := false
  write : Bool := false
  execute : Bool := false
deriving DecidableEq, Repr, Inhabited

namespace Access

/-- Execute is bit 0 of a permission number, write bit 1 and read bit 2. -/
def ofCode (n : Nat) : Access := ⟨n.testBit 2, n.testBit 1, n.testBit 0⟩

/-- The number of a set of permissions. -/
def bits (a : Access) : Nat := 4 * a.read.toNat + 2 * a.write.toNat + a.execute.toNat

/-- Every wanted permission is granted. -/
def allows (granted wanted : Access) : Bool :=
  (granted.read || !wanted.read) && (granted.write || !wanted.write) &&
    (granted.execute || !wanted.execute)

/-- The permissions as `rwx`, with a dash for each that is missing. -/
def name (a : Access) : Text :=
  [if a.read then ascii 'r' else ascii '-', if a.write then ascii 'w' else ascii '-',
    if a.execute then ascii 'x' else ascii '-']

/-- To load. -/
def forRead : Access := { read := true }

/-- To store. -/
def forWrite : Access := { write := true }

/-- To fetch an instruction. -/
def forExecute : Access := { execute := true }

/-- Code: read and execute. -/
def rx : Access := { read := true, execute := true }

/-- Data: read and write. -/
def rw : Access := { read := true, write := true }

end Access

end VectorRisc
