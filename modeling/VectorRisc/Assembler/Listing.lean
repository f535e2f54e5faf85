/-
Module: VectorRisc.Assembler.Listing
Layer: Assembler
Purpose: The listing of an assembly: for every instruction line the words it was written with and the
  codes it became, before relocation.
Imports: VectorRisc.Instruction.Word, VectorRisc.Object.Segment
Trusted boundary: none
Main exports: Assembler.Statement, Assembler.Listing, Assembler.Listing.lookup?, Assembler.Listing.codes
Open obligations: none
-/
import VectorRisc.Instruction.Word
import VectorRisc.Object.Segment

namespace VectorRisc

namespace Assembler

/-- One assembled instruction line: its line number, where its codes went, the mnemonic and the
    operands it was written with, and the codes. -/
structure Statement where
  lineNo : Nat
  segment : Segment
  offset : UInt64
  words : List Text
  codes : List Word
deriving DecidableEq, Repr, Inhabited

/-- The statements of a source in the order they were assembled. -/
abbrev Listing := Array Statement

namespace Listing

/-- The place in a statement of the code that covers an offset of a segment. -/
def placeIn? (s : Segment) (offset : UInt64) (st : Statement) : Option Nat :=
  if st.segment ≠ s || offset < st.offset then none
  else
    let index := ((offset - st.offset) / 4).toNat
    if index < st.codes.length then some index else none

/-- The first statement with a code that covers an offset of a segment, and the place of the code. -/
def lookup? (listing : Listing) (s : Segment) (offset : UInt64) : Option (Statement × Nat) :=
  listing.toList.findSome? fun st => (placeIn? s offset st).map fun index => (st, index)

/-- The offsets and codes of a statement. -/
def codesOf (st : Statement) : List (UInt64 × Word) :=
  (List.range st.codes.length).zip st.codes |>.map fun (n, code) =>
    (st.offset + 4 * UInt64.ofNat n, code)

/-- Every code of a segment with its offset, in order. -/
def codes (listing : Listing) (s : Segment) : List (UInt64 × Word) :=
  (listing.toList.filter fun st => st.segment = s).flatMap codesOf

end Listing

end Assembler

end VectorRisc
