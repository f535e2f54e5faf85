/-
Module: VectorRisc.Expression.Format
Layer: Expression
Purpose: The text of values, and texts with places for values. A place is a percent sign and a letter;
  there are as many places as values, and two percent signs stand for one.
Imports: VectorRisc.Expression.Value, VectorRisc.Text.Escape
Trusted boundary: texts are those that the host's interpreter makes of the values known here
Main exports: Expression.Value.text, Expression.interpolate?
Open obligations: none
-/
import VectorRisc.Expression.Value
import VectorRisc.Text.Escape

namespace VectorRisc

namespace Expression

/-! ### Floats -/

/-- The places behind the point that a float is written with where their number is fixed. -/
def fixedPlaces : Nat := 6

/-- A finite float without its sign as a ratio. -/
def ratio (x : Float) : Nat × Nat :=
  let (m, e) := exact x
  if 0 ≤ e then (m.natAbs <<< e.toNat, 1) else (m.natAbs, 1 <<< (-e).toNat)

/-- The sign of a float, also of a zero. -/
def floatSign (x : Float) : Text :=
  if Ieee.double.signBit ≤ x.toBits.toNat then [ascii '-'] else []

/-- A number with a point before its last `places` digits. -/
def withPoint (places n : Nat) : Text :=
  let digits := Numeral.natural 10 n
  let digits := List.replicate (places + 1 - digits.length) (ascii '0') ++ digits
  digits.take (digits.length - places) ++ [ascii '.'] ++ digits.drop (digits.length - places)

/-- A float that is no finite number has a word of its own. -/
def wordOf? (x : Float) : Option Text :=
  if x.isNaN then some (Text.ofString "nan")
  else if x.isInf then some (Text.ofString (if x > 0 then "+inf" else "-inf"))
  else none

/-- A float with a fixed number of places. -/
def fixedText (x : Float) : Text :=
  let (num, den) := ratio x
  floatSign x ++
    withPoint fixedPlaces (Ieee.Format.roundDiv (num * Nat.pow 10 fixedPlaces) den)

/-- A float as one digit, a fixed number of places and an exponent behind the letter `mark`. -/
def scientificText (mark : Char) (x : Float) : Text :=
  let (num, den) := ratio x
  let (digits, exponent) := if num = 0 then (0, 0) else leading num den
  let size := Numeral.natural 10 exponent.natAbs
  floatSign x ++ withPoint fixedPlaces digits ++
    [ascii mark, if exponent < 0 then ascii '-' else ascii '+'] ++
    List.replicate (2 - size.length) (ascii '0') ++ size
where
  /-- The first digits of a positive ratio, rounded, and the exponent of the first one. -/
  leading (num den : Nat) : Nat × Int :=
    let exponent := Ieee.Format.pointOf num den - 1
    let shift := (fixedPlaces : Int) - exponent
    let digits :=
      if 0 ≤ shift then Ieee.Format.roundDiv (num * Nat.pow 10 shift.toNat) den
      else Ieee.Format.roundDiv num (den * Nat.pow 10 (-shift).toNat)
    if digits = Nat.pow 10 (fixedPlaces + 1) then (digits / 10, exponent + 1) else (digits, exponent)

/-- A float with as few digits as read back, and with a point or an exponent in any case. -/
def floatText (x : Float) : Text :=
  let text := Ieee.double.write x.toBits.toNat
  if text.contains (ascii 'e') || text.contains (ascii '.') then text
  else text ++ Text.ofString ".0"

/-! ### Values -/

/-- The name of a function. -/
def Function.name : Function → Text
  | .len => Text.ofString "len"
  | .abs => Text.ofString "abs"
  | .min => Text.ofString "min"
  | .max => Text.ofString "max"
  | .int => Text.ofString "int"
  | .float => Text.ofString "float"
  | .ord => Text.ofString "ord"
  | .bool => Text.ofString "bool"
  | .other name => name

mutual

/-- The text of a value as it would be written in an expression. -/
def Value.text : Value → Text
  | .none => Text.ofString "None"
  | .bool b => Text.ofString (if b then "True" else "False")
  | .int n => Numeral.decimal n
  | .float x => (wordOf? x).getD (floatText x)
  | .str t => t.quote
  | .bytes t => ascii 'b' :: t.quote
  | .list items => [ascii '['] ++ Text.join (Text.ofString ", ") (textAll items) ++ [ascii ']']
  | .tuple items =>
    [ascii '('] ++ Text.join (Text.ofString ", ") (textAll items) ++
      (if items.length = 1 then [ascii ',', ascii ')'] else [ascii ')'])
  | .function f => Text.ofString "<built-in function " ++ f.name ++ [ascii '>']

/-- The texts of some values, in order. -/
def textAll : List Value → List Text
  | [] => []
  | v :: vs => v.text :: textAll vs

end

/-! ### Places -/

/-- The integer of a number; a float loses its fraction. -/
def Value.toInt? : Value → Option Int
  | .int n => some n
  | .float x => truncate? x
  | _ => Option.none

/-- The float of a number; an integer beyond all floats has none. -/
def Value.toFloat? : Value → Option Float
  | .int n => Expression.toFloat? n
  | .float x => some x
  | _ => Option.none

/-- An integer in a base, with its sign. -/
def integerText (base : Nat) (n : Int) : Text :=
  (if n < 0 then [ascii '-'] else []) ++ Numeral.natural base n.natAbs

/-- A letter in lower case as a capital one. -/
def capital (b : UInt8) : UInt8 := if ascii 'a' ≤ b && b ≤ ascii 'z' then b - 32 else b

/-- The character of a code point, or of a text of one character. -/
def Value.character? : Value → Option Text
  | .int n => if n < 0 || 0x10ffff < n then Option.none else some (Text.encodePoint n.toNat)
  | .str t =>
    match t.glyphs with
    | [g] => some (Text.encodePoint g.code)
    | _ => Option.none
  | _ => Option.none

/-- A number as a float at a place; an integer beyond all floats is infinite. -/
def floatPlace? (write : Float → Text) (v : Value) : Option Text :=
  let x? := match v with
    | .int n => some ((toFloat? n).getD (if n < 0 then -1.0 / 0.0 else 1.0 / 0.0))
    | .float x => some x
    | _ => none
  x?.map fun x => (wordOf? x).getD (write x)

/-- A value as the letter of a place asks for it, if the letter fits. -/
def place? (letter : UInt8) (v : Value) : Option Text :=
  match Char.ofNat letter.toNat with
  | 's' =>
    match v with
    | .str t => some t
    | _ => some v.text
  | 'r' => some v.text
  | 'd' | 'i' => v.toInt?.map (integerText 10)
  | 'o' => v.toInt?.map (integerText 8)
  | 'x' => v.toInt?.map (integerText 16)
  | 'X' => v.toInt?.map fun n => (integerText 16 n).map capital
  | 'c' => v.character?
  | 'e' => floatPlace? (scientificText 'e') v
  | 'E' => floatPlace? (scientificText 'E') v
  | 'f' => floatPlace? fixedText v
  | 'F' => floatPlace? (fun _ => Text.ofString "%F") v
  | 'g' => floatPlace? floatText v
  | 'G' => floatPlace? (fun x => (floatText x).map capital) v
  | _ => none

/-- A template with its places filled; none if a place does not fit its value, or if there are more
    places than values or fewer. -/
def interpolate? : (template : Text) → List Value → Option Text
  | [], [] => some []
  | [], _ :: _ => none
  | [b], args => if b = ascii '%' || !args.isEmpty then none else some [b]
  | b :: c :: rest, args =>
    if b ≠ ascii '%' then (interpolate? (c :: rest) args).map (b :: ·)
    else if c = ascii '%' then (interpolate? rest args).map (ascii '%' :: ·)
    else
      match args with
      | [] => none
      | v :: vs =>
        match place? c v with
        | none => none
        | some t => (interpolate? rest vs).map (t ++ ·)

/-- The values that fill a template: the items of a tuple, or one value. -/
def Value.arguments : Value → List Value
  | .tuple items => items
  | v => [v]

end Expression

end VectorRisc
