/-
Module: VectorRisc.Memory.Error
Layer: Memory
Purpose: Why a memory operation fails, and how it is told. A fault names the permission that was wanted,
  the number of bytes and the address.
Imports: VectorRisc.Access, VectorRisc.Message
Trusted boundary: none
Main exports: Memory.Error, Memory.Error.message
Open obligations: none
-/
import VectorRisc.Access
import VectorRisc.Message

namespace VectorRisc

namespace Memory

/-- Why a memory operation fails. -/
inductive Error where
  /-- An access outside of every region, or one that the region does not permit. -/
  | fault (addr : UInt64) (size : Nat) (wanted : Access)
  | overlap (name other : Text)
  | bufferLimit (size limit : UInt64)
  | stackSize (size : UInt64)
  | heapExhausted
  | heapReaches (brk : UInt64) (name : Text)
  | heapUnderflow
  | noHeap
  /-- The end of a write wraps around the address space, so that it would leave the storage. -/
  | outOfBounds
deriving DecidableEq, Repr, Inhabited

/-- The text of a memory error. -/
def Error.message : Error → String
  | .fault addr size wanted =>
    s!"segmentation fault: {wanted.name.display} of {shown size} bytes at {hexed addr.toNat}"
  | .overlap name other => s!"segments overlap: {name.display} and {other.display}"
  | .bufferLimit size limit =>
    s!"buffer exceeds its maximum size: {plain size.toNat} > {plain limit.toNat}"
  | .stackSize size => s!"buffer exceeds its maximum size: stack size {plain size.toNat}"
  | .heapExhausted => "heap exhausted"
  | .heapReaches brk name => s!"heap exhausted: break {hexed brk.toNat} reaches {name.display}"
  | .heapUnderflow => "heap break below heap start"
  | .noHeap => "no heap segment"
  | .outOfBounds => "write out of bounds"

end Memory

end VectorRisc
