/-
Module: VectorRisc.Instruction.Word
Layer: Instruction
Purpose: The 32-bit instruction word and its bit fields. The low seven bits are the opcode; the four
  layouts place registers, function codes and immediates in the bits above it.
Imports: none
Trusted boundary: none
Main exports: Word, Word.ofR, Word.ofI, Word.ofJ, Word.ofEI, Word.setImmI, Word.setAddrJ,
  Word.setImmEI, sliceOf, signExtend
Open obligations: none
-/

namespace VectorRisc

/-- A raw instruction word. -/
abbrev Word := UInt32

namespace Word

/-- Bits of an opcode. -/
def opcodeMask : UInt32 := 0x7f

/-- Bits of a register number. -/
def registerMask : UInt32 := 0x1f

/-- Bits of the function code of the register layout. -/
def funcMaskR : UInt32 := 0x3ff

/-- Bits of the function code of the slice layout. -/
def funcMaskEI : UInt32 := 0xf

/-- Bits of a short immediate. -/
def immMaskI : UInt32 := 0x7fff

/-- Bits of a jump's word address. -/
def addrMaskJ : UInt32 := 0x1ffffff

/-- The register layout: destination at bit 7, sources at 12 and 17, function code at 22. -/
def ofR (opcode : UInt8) (func : UInt16) (rd rs rt : UInt8) : Word :=
  (opcode.toUInt32 &&& opcodeMask) |||
    ((rd.toUInt32 &&& registerMask) <<< 7) |||
    ((rs.toUInt32 &&& registerMask) <<< 12) |||
    ((rt.toUInt32 &&& registerMask) <<< 17) |||
    ((func.toUInt32 &&& funcMaskR) <<< 22)

/-- The immediate layout: target register at bit 7, source at 12, and the low fifteen bits of the
    immediate at 17. -/
def ofI (opcode : UInt8) (rt rs : UInt8) (imm : UInt16) : Word :=
  (opcode.toUInt32 &&& opcodeMask) |||
    ((rt.toUInt32 &&& registerMask) <<< 7) |||
    ((rs.toUInt32 &&& registerMask) <<< 12) |||
    ((imm.toUInt32 &&& immMaskI) <<< 17)

/-- The jump layout: the low 25 bits of a word address at bit 7. -/
def ofJ (opcode : UInt8) (addr : UInt32) : Word :=
  (opcode.toUInt32 &&& opcodeMask) ||| ((addr &&& addrMaskJ) <<< 7)

/-- The slice layout: destination at bit 7, function code at 12, a full 16-bit immediate at 16. -/
def ofEI (opcode : UInt8) (func : UInt8) (rd : UInt8) (imm : UInt16) : Word :=
  (opcode.toUInt32 &&& opcodeMask) |||
    ((rd.toUInt32 &&& registerMask) <<< 7) |||
    ((func.toUInt32 &&& funcMaskEI) <<< 12) |||
    (imm.toUInt32 <<< 16)

/-! ### Fields -/

/-- The opcode. -/
def opcode (w : Word) : UInt8 := (w &&& opcodeMask).toUInt8

/-- The register field at bit 7: the destination, or the target register of the immediate layout. -/
def fieldD (w : Word) : UInt8 := ((w >>> 7) &&& registerMask).toUInt8

/-- The register field at bit 12. -/
def fieldS (w : Word) : UInt8 := ((w >>> 12) &&& registerMask).toUInt8

/-- The register field at bit 17. -/
def fieldT (w : Word) : UInt8 := ((w >>> 17) &&& registerMask).toUInt8

/-- The function code of the register layout. -/
def funcR (w : Word) : UInt16 := ((w >>> 22) &&& funcMaskR).toUInt16

/-- The raw short immediate. -/
def immI (w : Word) : UInt16 := ((w >>> 17) &&& immMaskI).toUInt16

/-- The word address of the jump layout. -/
def addrJ (w : Word) : UInt32 := (w >>> 7) &&& addrMaskJ

/-- The function code of the slice layout. -/
def funcEI (w : Word) : UInt8 := ((w >>> 12) &&& funcMaskEI).toUInt8

/-- The immediate of the slice layout. -/
def immEI (w : Word) : UInt16 := (w >>> 16).toUInt16

/-! ### Replacing an immediate -/

/-- The word with another short immediate. -/
def setImmI (w : Word) (imm : UInt16) : Word :=
  (w &&& ~~~(immMaskI <<< 17)) ||| ((imm.toUInt32 &&& immMaskI) <<< 17)

/-- The word with another jump address. -/
def setAddrJ (w : Word) (addr : UInt32) : Word :=
  (w &&& ~~~(addrMaskJ <<< 7)) ||| ((addr &&& addrMaskJ) <<< 7)

/-- The word with another 16-bit slice. -/
def setImmEI (w : Word) (imm : UInt16) : Word :=
  (w &&& ~~~((0xffff : UInt32) <<< 16)) ||| (imm.toUInt32 <<< 16)

end Word

/-- A sixteen-bit slice of a 64-bit value, counted from the least significant. -/
def sliceOf (value : UInt64) (n : Nat) : UInt16 := (value >>> UInt64.ofNat (16 * n)).toUInt16

/-- The low `bits` bits of a value as a signed number. A width that is not from 1 to 64 has no bits to
    extend and gives zero. -/
def signExtend (value : UInt64) (bits : Nat) : Int64 :=
  if bits = 0 || 64 < bits then 0
  else
    let shift := UInt64.ofNat (64 - bits)
    (value <<< shift).toInt64 >>> shift.toInt64

end VectorRisc
