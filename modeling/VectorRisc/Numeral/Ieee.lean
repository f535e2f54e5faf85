/-
Module: VectorRisc.Numeral.Ieee
Layer: Numeral
Purpose: Binary floating-point numbers as bit patterns, in exact integer arithmetic. A ratio is rounded to
  the nearest pattern, a half to the even one; a pattern is written with the fewest decimal digits that
  read back as the same pattern.
Imports: VectorRisc.Numeral.Integer
Trusted boundary: none
Main exports: Ieee.Format, Ieee.single, Ieee.double, Ieee.Format.ofRatio?, Ieee.Format.read,
  Ieee.Format.shortest, Ieee.Format.write
Open obligations: none
-/
import VectorRisc.Numeral.Integer

namespace VectorRisc

namespace Ieee

/-- A binary interchange format: the widths of its fraction and exponent fields, and the pattern that
    the text `nan` stands for. -/
structure Format where
  fractionBits : Nat
  exponentBits : Nat
  nan : Nat
deriving DecidableEq, Repr, Inhabited

/-- 32-bit floating point. -/
def single : Format := ⟨23, 8, 0x7fc00000⟩

/-- 64-bit floating point. -/
def double : Format := ⟨52, 11, 0x7ff8000000000001⟩

namespace Format

/-- The pattern of infinity, without a sign. -/
def infinity (f : Format) : Nat := (1 <<< f.exponentBits - 1) <<< f.fractionBits

/-- The sign bit. -/
def signBit (f : Format) : Nat := 1 <<< (f.fractionBits + f.exponentBits)

/-- The power of two that the lowest bit of the smallest numbers stands for. -/
def leastExponent (f : Format) : Int := 2 - (1 <<< (f.exponentBits - 1) : Nat) - f.fractionBits

/-- The pattern with a sign. -/
def signed (f : Format) (negative : Bool) (magnitude : Nat) : Nat :=
  if negative then magnitude + f.signBit else magnitude

/-! ### Rounding -/

/-- A quotient rounded to the nearest integer, a half to the even one. -/
def roundDiv (num den : Nat) : Nat :=
  let q := num / den
  let r := num % den
  if den < 2 * r || (2 * r = den && q % 2 = 1) then q + 1 else q

/-- The greatest `e` with `2 ^ e ≤ num / den`, for a positive ratio. -/
def floorLog2 (num den : Nat) : Int :=
  let guess : Int := (num.log2 : Int) - (den.log2 : Int)
  let fits := if 0 ≤ guess then den <<< guess.toNat ≤ num else den ≤ num <<< (-guess).toNat
  if fits then guess else guess - 1

/-- The pattern nearest to a ratio, without a sign; none if it is beyond the greatest number. Numbers
    too small for the normal form lose low bits. -/
def ofRatio? (f : Format) (num den : Nat) : Option Nat :=
  if num = 0 then some 0
  else
    let e := max (floorLog2 num den - f.fractionBits) f.leastExponent
    let q := if 0 ≤ e then roundDiv num (den <<< e.toNat) else roundDiv (num <<< (-e).toNat) den
    let pattern := (e - f.leastExponent).toNat <<< f.fractionBits + q
    if f.infinity ≤ pattern then none else some pattern

/-! ### Reading -/

/-- The digits of a mantissa, read in `base` from the left. -/
structure Mantissa where
  /-- All digits as one number. -/
  value : Nat := 0
  /-- Digits after the point. -/
  places : Nat := 0
  sawDigit : Bool := false
  sawPoint : Bool := false
deriving DecidableEq, Repr, Inhabited

/-- Read the mantissa at the front of a text: digits, underscores, and at most one point. -/
def readMantissa (base : Nat) : Mantissa → Text → Mantissa × Text
  | m, [] => (m, [])
  | m, b :: rest =>
    if b = ascii '_' then readMantissa base m rest
    else if b = ascii '.' then
      if m.sawPoint then (m, b :: rest) else readMantissa base { m with sawPoint := true } rest
    else
      match Literal.hexDigit? b with
      | some d =>
        if d < base then
          readMantissa base
            { m with
              value := m.value * base + d
              places := if m.sawPoint then m.places + 1 else m.places
              sawDigit := true } rest
        else (m, b :: rest)
      | none => (m, b :: rest)

/-- The greatest exponent that is told apart from greater ones. -/
def exponentCap : Nat := 10000

/-- Read the digits and underscores of an exponent; beyond the cap digits are passed over. -/
def readExponentDigits : (e : Nat) → Text → Nat × Text
  | e, [] => (e, [])
  | e, b :: rest =>
    if b = ascii '_' then readExponentDigits e rest
    else if Text.isDigit b then
      readExponentDigits (if e < exponentCap then e * 10 + (b.toNat - 48) else e) rest
    else (e, b :: rest)

/-- Read the exponent after its mark: an optional sign and at least one digit. -/
def readExponent? (t : Text) : Option (Int × Text) :=
  let negative := t.head? = some (ascii '-')
  let body := if negative || t.head? = some (ascii '+') then t.tail else t
  if body.head?.any Text.isDigit then
    let (e, rest) := readExponentDigits 0 body
    some (if negative then -(e : Int) else e, rest)
  else none

/-- The text after the mark of a hexadecimal number, which counts only if something follows it. -/
def hexBody? : Text → Option Text
  | z :: x :: d :: rest =>
    if z = ascii '0' && (x = ascii 'x' || x = ascii 'X') then some (d :: rest) else none
  | _ => none

/-- A power of ten whose numbers are all beyond or all below what a format can hold. -/
def decimalCut : Int := 1000

/-- The pattern nearest to `value * 10 ^ e`, where `value` has at most `digits` digits. -/
def ofDecimal? (f : Format) (value digits : Nat) (e : Int) : Option Nat :=
  if value = 0 then some 0
  else if decimalCut < e then none
  else if e + digits < -decimalCut then some 0
  else if 0 ≤ e then f.ofRatio? (value * Nat.pow 10 e.toNat) 1
  else f.ofRatio? value (Nat.pow 10 (-e).toNat)

/-- The pattern nearest to `value * 2 ^ e`, where `value` has at most `bits` bits. -/
def ofBinary? (f : Format) (value bits : Nat) (e : Int) : Option Nat :=
  if value = 0 then some 0
  else if 4 * decimalCut < e then none
  else if e + bits < -(4 * decimalCut) then some 0
  else if 0 ≤ e then f.ofRatio? (value <<< e.toNat) 1
  else f.ofRatio? value (1 <<< (-e).toNat)

/-- A text equals a lower-case word up to the case of its letters. -/
def sameLetters (t : Text) (word : String) : Bool :=
  t.map (fun b => if ascii 'A' ≤ b && b ≤ ascii 'Z' then b + 32 else b) = Text.ofString word

/-- The magnitude of the unsigned number at the front of a text, none if it is too great, and the rest
    of the text. -/
def readMagnitude (f : Format) (t : Text) : Except Numeral.Fault (Option Nat × Text) :=
  let hex := hexBody? t
  let base := if hex.isSome then 16 else 10
  let (m, rest) := readMantissa base {} (hex.getD t)
  if !m.sawDigit then .error .malformed
  else
    let isMark (b : UInt8) : Bool :=
      if hex.isSome then b = ascii 'p' || b = ascii 'P' else b = ascii 'e' || b = ascii 'E'
    match rest with
    | b :: more =>
      if isMark b then
        match readExponent? more with
        | none => .error .malformed
        | some (e, rest) => .ok (finish hex.isSome m e, rest)
      else if hex.isSome then .error .malformed
      else .ok (finish false m 0, rest)
    | [] => if hex.isSome then .error .malformed else .ok (finish false m 0, rest)
where
  /-- The pattern of a mantissa and an exponent. -/
  finish (hex : Bool) (m : Mantissa) (e : Int) : Option Nat :=
    if hex then f.ofBinary? m.value (m.value.log2 + 1) (e - 4 * m.places)
    else f.ofDecimal? m.value (m.value.log2 / 3 + 1) (e - m.places)

/-- The pattern of a text: a decimal number, or a hexadecimal one with a binary exponent, with
    underscores between digits only; `inf` and `infinity` with an optional sign; `nan`. Numbers too
    great are out of range, and numbers too small are zero. -/
def read (f : Format) (t : Text) : Except Numeral.Fault Nat :=
  let negative := t.head? = some (ascii '-')
  let hasSign := negative || t.head? = some (ascii '+')
  let body := if hasSign then t.tail else t
  if sameLetters body "inf" || sameLetters body "infinity" then .ok (f.signed negative f.infinity)
  else if !hasSign && sameLetters body "nan" then .ok f.nan
  else
    match readMagnitude f body with
    | .error e => .error e
    | .ok (pattern, rest) =>
      if !rest.isEmpty then .error .malformed
      else if t.contains (ascii '_') && !Numeral.underscoresPlaced t then .error .malformed
      else
        match pattern with
        | none => .error .outOfRange
        | some magnitude => .ok (f.signed negative magnitude)

/-! ### Shortest decimal text -/

/-- The integer and the power of two that a finite pattern without sign stands for. -/
def parts (f : Format) (magnitude : Nat) : Nat × Int :=
  let field := magnitude >>> f.fractionBits
  let fraction := magnitude % (1 <<< f.fractionBits)
  if field = 0 then (fraction, f.leastExponent)
  else (1 <<< f.fractionBits + fraction, f.leastExponent + (field - 1 : Nat))

/-- Decimal digits and the place of the point: `0.d₁d₂… * 10 ^ point`. -/
structure Decimal where
  digits : Nat
  point : Int
deriving DecidableEq, Repr, Inhabited

/-- More decimal places than the first digit of any number can be behind the point. -/
def placesBound : Nat := 400

/-- The place of the point of a positive ratio: `10 ^ (point - 1) ≤ num / den < 10 ^ point`. -/
def pointOf (num den : Nat) : Int :=
  ((Nat.toDigits 10 (num * Nat.pow 10 placesBound / den)).length : Int) - placesBound

/-- The candidate with `k` digits: of the neighbours of `num / den` on the grid of `k` digits that lie
    between `low / den` and `high / den`, the nearer one, and on a tie the even one. -/
def candidate? (num low high den : Nat) (inclusive : Bool) (point : Int) (k : Nat) : Option Decimal :=
  let t : Int := point - k
  let up := if 0 ≤ t then Nat.pow 10 t.toNat else 1
  let down := if t < 0 then Nat.pow 10 (-t).toNat else 1
  -- A grid point `d` stands at `d * unit`, counted in parts of `den * down`.
  let unit := up * den
  let d := num * down / unit
  let inside (g : Nat) : Bool :=
    if inclusive then low * down ≤ g * unit && g * unit ≤ high * down
    else low * down < g * unit && g * unit < high * down
  let below := num * down - d * unit
  let above := (d + 1) * unit - num * down
  if inside d && inside (d + 1) then
    some ⟨if below < above || (below = above && d % 2 = 0) then d else d + 1, point⟩
  else if inside d then some ⟨d, point⟩
  else if inside (d + 1) then some ⟨d + 1, point⟩
  else none

/-- The first of the candidates with `k`, `k + 1`, … digits, at most `fuel` of them. -/
def searchDigits (num low high den : Nat) (inclusive : Bool) (point : Int) :
    (fuel k : Nat) → Decimal × Nat
  | 0, k => (⟨num / den, point⟩, k)
  | fuel + 1, k =>
    match candidate? num low high den inclusive point k with
    | some d => (d, k)
    | none => searchDigits num low high den inclusive point fuel (k + 1)

/-- Seventeen digits always tell two patterns apart. -/
def digitsBound : Nat := 17

/-- Drop trailing zeros, of which there are fewer than `fuel`. -/
def dropZeros : (fuel n : Nat) → Nat
  | 0, n => n
  | fuel + 1, n => if n % 10 = 0 && n ≠ 0 then dropZeros fuel (n / 10) else n

/-- The decimal with the fewest digits that reads back as a positive finite pattern, and of these the
    nearest. The numbers that round to the pattern reach half way to its neighbours, ends included if
    its integer is even. -/
def shortest (f : Format) (magnitude : Nat) : Decimal :=
  let (m, e) := f.parts magnitude
  let atPower := m = 1 <<< f.fractionBits && f.leastExponent < e
  -- Everything is counted in quarters of the lowest bit.
  let scale (n : Nat) : Nat := if 2 ≤ e then n <<< (e - 2).toNat else n
  let den := if 2 ≤ e then 1 else 1 <<< (2 - e).toNat
  let num := scale (4 * m)
  let low := scale (if atPower then 4 * m - 1 else 4 * m - 2)
  let high := scale (4 * m + 2)
  let point := pointOf num den
  let (d, k) := searchDigits num low high den (m % 2 = 0) point digitsBound 1
  -- A candidate may have reached the next power of ten.
  let point := if Nat.pow 10 k ≤ d.digits then point + 1 else point
  ⟨dropZeros (digitsBound + 1) d.digits, point⟩

/-- Where positional notation ends: the exponent form is used below `10 ^ -4` and from `10 ^ 6` on. -/
def positional (exponent : Int) : Bool := -4 ≤ exponent && exponent < 6

/-- A decimal as text: positional, or a digit, the others after a point, and a signed exponent of at
    least two digits. -/
def Decimal.text (d : Decimal) : Text :=
  let digits := Numeral.natural 10 d.digits
  let exponent := d.point - 1
  if positional exponent then
    if d.point ≤ 0 then
      Text.ofString "0." ++ List.replicate (-d.point).toNat (ascii '0') ++ digits
    else if digits.length ≤ d.point.toNat then
      digits ++ List.replicate (d.point.toNat - digits.length) (ascii '0')
    else digits.take d.point.toNat ++ [ascii '.'] ++ digits.drop d.point.toNat
  else
    let mantissa := match digits with
      | first :: second :: rest => first :: ascii '.' :: second :: rest
      | _ => digits
    let size := Numeral.natural 10 exponent.natAbs
    mantissa ++ [ascii 'e', if exponent < 0 then ascii '-' else ascii '+'] ++
      List.replicate (2 - size.length) (ascii '0') ++ size

/-- A pattern as text. -/
def write (f : Format) (pattern : Nat) : Text :=
  let negative := f.signBit ≤ pattern % (2 * f.signBit)
  let magnitude := pattern % f.signBit
  if f.infinity < magnitude then Text.ofString "NaN"
  else
    let sign := if negative then [ascii '-'] else []
    if magnitude = f.infinity then
      if negative then Text.ofString "-Inf" else Text.ofString "+Inf"
    else if magnitude = 0 then sign ++ [ascii '0']
    else sign ++ (f.shortest magnitude).text

end Format

end Ieee

end VectorRisc
