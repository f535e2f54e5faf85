/-
Module: VectorRisc.Numeral.Integer
Layer: Numeral
Purpose: Integers as text. Reading follows the base mark (`0x`, `0o`, `0b`, a bare leading zero for
  octal) and lets underscores separate digits; writing is plain decimal or hexadecimal, or decimal in
  groups of three for messages.
Imports: VectorRisc.Text.Quoted
Trusted boundary: none
Main exports: Numeral.readUnsigned, Numeral.readSigned, Numeral.readPlain, Numeral.number?,
  Numeral.decimal, Numeral.hex, Numeral.grouped
Open obligations: none
-/
import VectorRisc.Text.Quoted

namespace VectorRisc

namespace Numeral

/-- Why a text is no numeral of the wanted width. -/
inductive Fault where
  | malformed
  | outOfRange
deriving DecidableEq, Repr, Inhabited

/-! ### Reading -/

/-- The value of a digit: letters of either case go on after nine. -/
def digitValue? (b : UInt8) : Option Nat :=
  if Text.isDigit b then some (b.toNat - 48)
  else if ascii 'a' ≤ b && b ≤ ascii 'z' then some (b.toNat - 87)
  else if ascii 'A' ≤ b && b ≤ ascii 'Z' then some (b.toNat - 55)
  else none

/-- Read digits of `base` onto `value`, from the left, as long as the value stays within `limit`.
    Underscores are passed over if the caller allows them. -/
def readDigits (base limit : Nat) (underscores : Bool) : (value : Nat) → Text → Except Fault Nat
  | value, [] => .ok value
  | value, b :: rest =>
    if underscores && b = ascii '_' then readDigits base limit underscores value rest
    else
      match digitValue? b with
      | none => .error .malformed
      | some d =>
        if base ≤ d then .error .malformed
        else if limit < value * base + d then .error .outOfRange
        else readDigits base limit underscores (value * base + d) rest

/-- The base that a letter after a leading zero names. -/
def markBase? (b : UInt8) : Option Nat :=
  if b = ascii 'b' || b = ascii 'B' then some 2
  else if b = ascii 'o' || b = ascii 'O' then some 8
  else if b = ascii 'x' || b = ascii 'X' then some 16
  else none

/-- The base of a numeral and its digits. A mark counts only if something follows it; without one a
    leading zero makes the numeral octal. -/
def splitBase (t : Text) : Nat × Text :=
  match t with
  | z :: m :: d :: rest =>
    if z = ascii '0' then
      match markBase? m with
      | some base => (base, d :: rest)
      | none => (8, m :: d :: rest)
    else (10, t)
  | z :: rest => if z = ascii '0' then (8, rest) else (10, t)
  | [] => (10, t)

/-- What the byte before an underscore was. -/
inductive Before where
  | digit
  | underscore
  | other
deriving DecidableEq, Repr, Inhabited

/-- Underscores stand only between digits, hexadecimal digits included if `hex`. -/
def underscoresFit (hex : Bool) : Before → Text → Bool
  | before, [] => before ≠ .underscore
  | before, b :: rest =>
    if Text.isDigit b || (hex && (Literal.hexDigit? b).isSome) then underscoresFit hex .digit rest
    else if b = ascii '_' then before = .digit && underscoresFit hex .underscore rest
    else before ≠ .underscore && underscoresFit hex .other rest

/-- Underscores stand only between digits; a base mark counts as a digit. -/
def underscoresPlaced (t : Text) : Bool :=
  let body := match t with
    | b :: rest => if b = ascii '+' || b = ascii '-' then rest else t
    | [] => t
  match body with
  | z :: m :: rest =>
    match (if z = ascii '0' then markBase? m else none) with
    | some base => underscoresFit (base = 16) .digit rest
    | none => underscoresFit false .other body
  | _ => underscoresFit false .other body

/-- The largest unsigned 64-bit value. -/
def unsignedMax : Nat := 0xffffffffffffffff

/-- The number of signed 64-bit values that are not negative. -/
def signedLimit : Nat := 0x8000000000000000

/-- An unsigned 64-bit numeral with an optional base mark. -/
def readUnsigned (t : Text) : Except Fault Nat :=
  if t.isEmpty then .error .malformed
  else
    let (base, digits) := splitBase t
    match readDigits base unsignedMax true 0 digits with
    | .error e => .error e
    | .ok v => if digits.contains (ascii '_') && !underscoresPlaced t then .error .malformed else .ok v

/-- A signed 64-bit numeral: an optional sign and an unsigned numeral. -/
def readSigned (t : Text) : Except Fault Int :=
  let negative := t.head? = some (ascii '-')
  let body := if negative || t.head? = some (ascii '+') then t.tail else t
  match readUnsigned body with
  | .error .malformed => .error .malformed
  | .error .outOfRange => .error .outOfRange
  | .ok v =>
    if negative then if v ≤ signedLimit then .ok (-(v : Int)) else .error .outOfRange
    else if v < signedLimit then .ok (v : Int) else .error .outOfRange

/-- A decimal numeral without sign, mark or underscores, within `limit`. -/
def readPlain (limit : Nat) (t : Text) : Except Fault Nat :=
  if t.isEmpty then .error .malformed else readDigits 10 limit false 0 t

/-- The 64-bit pattern of a numeric literal: a character in apostrophes, a signed numeral, or an
    unsigned one. -/
def number? (t : Text) : Option Int64 :=
  if Literal.looksLikeChar t then (Literal.char? t).map fun v => Int64.ofNat v
  else
    match readSigned t with
    | .ok v => some (Int64.ofInt v)
    | .error _ =>
      match readUnsigned t with
      | .ok v => some (Int64.ofNat v)
      | .error _ => none

/-! ### Writing -/

/-- The digits of a natural number in a base up to sixteen. -/
def natural (base n : Nat) : Text := (Nat.toDigits base n).map ascii

/-- An integer in decimal. -/
def decimal : Int → Text
  | .ofNat n => natural 10 n
  | .negSucc n => ascii '-' :: natural 10 (n + 1)

/-- A natural number in lower-case hexadecimal. -/
def hex (n : Nat) : Text := natural 16 n

/-- A hexadecimal number with `0x` in front; a negative one has its sign after the mark. -/
def marked : Int → Text
  | .ofNat n => Text.ofString "0x" ++ hex n
  | .negSucc n => Text.ofString "0x-" ++ hex (n + 1)

/-- A hexadecimal number filled up with zeros to at least `width` digits. -/
def hexPadded (width n : Nat) : Text :=
  let digits := hex n
  List.replicate (width - digits.length) (ascii '0') ++ digits

/-- A comma after every digit that has a positive multiple of three digits behind it. -/
def groupDigits : Text → Text
  | [] => []
  | d :: rest =>
    if rest.length % 3 = 0 && !rest.isEmpty then d :: ascii ',' :: groupDigits rest
    else d :: groupDigits rest

/-- An integer in decimal with a comma between groups of three digits, as messages show it. -/
def grouped : Int → Text
  | .ofNat n => groupDigits (natural 10 n)
  | .negSucc n => ascii '-' :: groupDigits (natural 10 (n + 1))

end Numeral

end VectorRisc
