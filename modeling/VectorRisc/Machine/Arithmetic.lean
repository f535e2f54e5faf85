/-
Module: VectorRisc.Machine.Arithmetic
Layer: Machine
Purpose: Integer arithmetic of the machine on 64-bit and 32-bit words. All of it wraps; a shift takes its
  amount modulo the width; division never fails: by zero it gives all ones and leaves the dividend.
Imports: none
Trusted boundary: none
Main exports: Arithmetic.extend32, Arithmetic.onLow, Arithmetic.divide64, Arithmetic.divideUnsigned64,
  Arithmetic.divide32, Arithmetic.productHigh, Arithmetic.productHighUnsigned
Open obligations: none
-/

namespace VectorRisc

namespace Arithmetic

/-- A 32-bit word, sign extended to 64 bits. -/
def extend32 (x : UInt32) : UInt64 := x.toInt32.toInt64.toUInt64

/-- A 32-bit operation on the low words of its operands, its result sign extended. -/
def onLow (f : UInt32 → UInt32 → UInt32) (a b : UInt64) : UInt64 := extend32 (f a.toUInt32 b.toUInt32)

/-- One for true, zero for false. -/
def flag64 (c : Bool) : UInt64 := if c then 1 else 0

/-- One for true, zero for false. -/
def flag32 (c : Bool) : UInt32 := if c then 1 else 0

/-! ### Comparison -/

/-- Signed less. -/
def less64 (a b : UInt64) : Bool := a.toInt64 < b.toInt64

/-- Signed less or equal. -/
def atMost64 (a b : UInt64) : Bool := a.toInt64 ≤ b.toInt64

/-- Signed less. -/
def less32 (a b : UInt32) : Bool := a.toInt32 < b.toInt32

/-- Signed less or equal. -/
def atMost32 (a b : UInt32) : Bool := a.toInt32 ≤ b.toInt32

/-! ### Shifts -/

/-- Shift right and fill with the sign. -/
def shiftSigned64 (a b : UInt64) : UInt64 := (a.toInt64 >>> (b &&& 63).toInt64).toUInt64

/-- Shift right and fill with the sign. -/
def shiftSigned32 (a b : UInt32) : UInt32 := (a.toInt32 >>> (b &&& 31).toInt32).toUInt32

/-- Shift left. -/
def shiftLeft64 (a b : UInt64) : UInt64 := a <<< (b &&& 63)

/-- Shift left. -/
def shiftLeft32 (a b : UInt32) : UInt32 := a <<< (b &&& 31)

/-- Shift right and fill with zeros. -/
def shiftRight64 (a b : UInt64) : UInt64 := a >>> (b &&& 63)

/-- Shift right and fill with zeros. -/
def shiftRight32 (a b : UInt32) : UInt32 := a >>> (b &&& 31)

/-! ### Products and quotients -/

/-- The number of values of a 64-bit word. -/
def modulus : Nat := 0x10000000000000000

/-- The high half of the product of two unsigned words. -/
def productHighUnsigned (a b : UInt64) : UInt64 := UInt64.ofNat (a.toNat * b.toNat / modulus)

/-- The high half of the product of two signed words: that of the words without signs, from which each
    negative operand takes the other one. -/
def productHigh (a b : UInt64) : UInt64 :=
  let high := productHighUnsigned a b
  let high := if a.toInt64 < 0 then high - b else high
  if b.toInt64 < 0 then high - a else high

/-- Signed quotient and remainder, the quotient toward zero. The least number divided by minus one
    wraps to itself. -/
def divide64 (a b : UInt64) : UInt64 × UInt64 :=
  if b = 0 then (-1, a)
  else ((a.toInt64 / b.toInt64).toUInt64, (a.toInt64 % b.toInt64).toUInt64)

/-- Unsigned quotient and remainder. -/
def divideUnsigned64 (a b : UInt64) : UInt64 × UInt64 := if b = 0 then (-1, a) else (a / b, a % b)

/-- Signed quotient and remainder of 32-bit words. -/
def divide32 (a b : UInt32) : UInt32 × UInt32 :=
  if b = 0 then (-1, a)
  else ((a.toInt32 / b.toInt32).toUInt32, (a.toInt32 % b.toInt32).toUInt32)

end Arithmetic

end VectorRisc
