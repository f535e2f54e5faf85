/-
Module: VectorRisc.Machine.Floating
Layer: Machine
Purpose: Floating-point arithmetic on bit patterns, and conversion between floating-point numbers and
  integers. Conversions are exact up to one rounding in a stated direction, and they saturate.
Imports: VectorRisc.Numeral.Ieee
Trusted boundary: sums, products, quotients and comparisons are those of the host's floating-point unit.
Main exports: Floating.on32, Floating.on64, Rounding, Floating.toInteger, Floating.ofInteger
Open obligations: none
-/
import VectorRisc.Numeral.Ieee

namespace VectorRisc

namespace Floating

/-! ### Arithmetic -/

/-- An operation on 32-bit numbers, on their patterns. -/
def on32 (f : Float32 → Float32 → Float32) (a b : UInt32) : UInt32 :=
  (f (Float32.ofBits a) (Float32.ofBits b)).toBits

/-- An operation on 64-bit numbers, on their patterns. -/
def on64 (f : Float → Float → Float) (a b : UInt64) : UInt64 :=
  (f (Float.ofBits a) (Float.ofBits b)).toBits

/-- A test on 32-bit numbers, on their patterns. -/
def test32 (f : Float32 → Float32 → Bool) (a b : UInt32) : Bool :=
  f (Float32.ofBits a) (Float32.ofBits b)

/-- A test on 64-bit numbers, on their patterns. -/
def test64 (f : Float → Float → Bool) (a b : UInt64) : Bool := f (Float.ofBits a) (Float.ofBits b)

/-- The sum of 32-bit numbers from the first on, starting at zero. -/
def sum32 (values : List UInt32) : UInt32 := values.foldl (on32 (· + ·)) 0

/-- The sum of 64-bit numbers from the first on, starting at zero. -/
def sum64 (values : List UInt64) : UInt64 := values.foldl (on64 (· + ·)) 0

end Floating

/-! ### Conversion -/

/-- The direction in which a number is rounded to an integer. -/
inductive Rounding where
  | nearestEven
  | down
  | up
  | towardZero
deriving DecidableEq, Repr, Inhabited

namespace Rounding

/-- The direction that the two low bits of a value name. -/
def ofMode (mode : UInt64) : Rounding :=
  match mode.toNat % 4 with
  | 0 => .nearestEven
  | 1 => .down
  | 2 => .up
  | _ => .towardZero

/-- A quotient with a positive divisor, rounded to an integer. -/
def divide (r : Rounding) (num : Int) (den : Nat) : Int :=
  match r with
  | .down => num / den
  | .up => -(-num / den)
  | .towardZero => num.tdiv den
  | .nearestEven =>
    let magnitude : Int := Ieee.Format.roundDiv num.natAbs den
    if num < 0 then -magnitude else magnitude

end Rounding

namespace Floating

/-- The number of signed integers of a width that are not negative. -/
def halfRange (width : Nat) : Nat := 1 <<< (width - 1)

/-- The nearest of the signed integers of a width. -/
def clamp (width : Nat) (n : Int) : Int := max (-halfRange width) (min n (halfRange width - 1))

/-- The signed integer of a width that a pattern rounds to. Beyond the range the nearest end stands in,
    and what is no number gives zero. -/
def toInteger (f : Ieee.Format) (r : Rounding) (width pattern : Nat) : Int :=
  let negative := f.signBit ≤ pattern
  let magnitude := pattern % f.signBit
  if f.infinity < magnitude then 0
  else if magnitude = f.infinity then if negative then -halfRange width else halfRange width - 1
  else
    let (m, e) := f.parts magnitude
    let num : Int := if negative then -(m : Int) else m
    clamp width
      (if 0 ≤ e then num * (1 <<< e.toNat : Nat) else r.divide num (1 <<< (-e).toNat))

/-- The pattern nearest to an integer. -/
def ofInteger (f : Ieee.Format) (n : Int) : Nat :=
  f.signed (n < 0) ((f.ofRatio? n.natAbs 1).getD f.infinity)

/-- A 32-bit number converted to a signed word. -/
def toInt32 (mode : UInt64) (pattern : UInt32) : UInt32 :=
  (Int32.ofInt (toInteger Ieee.single (.ofMode mode) 32 pattern.toNat)).toUInt32

/-- A 64-bit number converted to a signed double word. -/
def toInt64 (mode pattern : UInt64) : UInt64 :=
  (Int64.ofInt (toInteger Ieee.double (.ofMode mode) 64 pattern.toNat)).toUInt64

/-- A signed word converted to a 32-bit number. -/
def ofInt32 (value : UInt32) : UInt32 := UInt32.ofNat (ofInteger Ieee.single value.toInt32.toInt)

/-- A signed double word converted to a 64-bit number. -/
def ofInt64 (value : UInt64) : UInt64 := UInt64.ofNat (ofInteger Ieee.double value.toInt64.toInt)

end Floating

end VectorRisc
