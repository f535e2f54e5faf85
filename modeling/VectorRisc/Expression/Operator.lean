/-
Module: VectorRisc.Expression.Operator
Layer: Expression
Purpose: The operators of compile-time expressions. Integers and floats mix in arithmetic, sequences are
  joined by a sum and repeated by a product, and a text fills its places with what stands behind a
  percent sign. An operation that is not defined has no result.
Imports: VectorRisc.Expression.Format
Trusted boundary: these are operators of the language that a host interprets (`VectorRisc.Command.Host`).
  64-bit float arithmetic is that of `Float`
Main exports: Expression.binary?, Expression.unary
Open obligations: none
-/
import VectorRisc.Expression.Format

namespace VectorRisc

namespace Expression

/-- The remainder of floats with the sign of the divisor. -/
def floatMod (x y : Float) : Float :=
  let r := remainder x y
  if (x < 0) != (y < 0) && !(r == 0) then r + y else r
where
  /-- The remainder with the sign of the dividend, computed exactly. -/
  remainder (x y : Float) : Float :=
    if x.isNaN || y.isNaN || x.isInf then 0.0 / 0.0
    else if y.isInf then x
    else
      let (m, e) := exact x
      let (k, f) := exact y
      let g := min e f
      let a := m.natAbs <<< (e - g).toNat
      let b := k.natAbs <<< (f - g).toNat
      let r := a % b
      let magnitude :=
        if 0 ≤ g then Ieee.double.ofRatio? (r <<< g.toNat) 1
        else Ieee.double.ofRatio? r (1 <<< (-g).toNat)
      floatOf (Ieee.double.signed (Ieee.double.signBit ≤ x.toBits.toNat) (magnitude.getD 0))

/-- An operation on integers, or on numbers of which one is a float. -/
def arithmetic (ints : Int → Int → Option Value) (floats : Float → Float → Option Float)
    (x y : Value) : Option Value :=
  match x, y with
  | .int a, .int b => ints a b
  | _, _ =>
    match x.toFloat?, y.toFloat? with
    | some a, some b => (floats a b).map Value.float
    | _, _ => none

/-- An operation on integers only. -/
def bitwise (f : Int → Int → Int) : Value → Value → Option Value
  | .int a, .int b => some (.int (f a b))
  | _, _ => none

/-- Bits of two integers in two's complement, combined. -/
def combineBits (f : Bool → Bool → Bool) (a b : Int) : Int :=
  let width := max a.natAbs.log2 b.natAbs.log2 + 2
  let pattern (n : Int) : Nat := (n % scaled 1 width).toNat
  let joined := Nat.bitwise f (pattern a) (pattern b)
  if joined.testBit (width - 1) then (joined : Int) - scaled 1 width else joined

/-- The greatest number of items that repeating a sequence may give. -/
def repeatLimit : Nat := 0x40000000

/-- A sequence repeated; a count that is not positive leaves nothing. The count has to fit 32 bits,
    unless there is nothing to repeat. -/
def repeated? {α : Type} (items : List α) (n : Int) : Option (List α) :=
  if items.isEmpty then some []
  else if n < -countLimit || countLimit ≤ n then none
  else if repeatLimit ≤ items.length * n.toNat then none
  else some (List.replicate n.toNat items).flatten

/-- The product of a sequence and a count. -/
def repeatValue? (x : Value) (n : Int) : Option Value :=
  match x with
  | .str t => (repeated? t n).map Value.str
  | .bytes t => (repeated? t n).map Value.bytes
  | .list items => (repeated? items n).map Value.list
  | .tuple items => (repeated? items n).map Value.tuple
  | _ => none

/-- The least shift to the left that is refused. -/
def shiftLimit : Int := 512

/-- The quotient of floats; there is none by zero. -/
def divide? (x y : Float) : Option Float := if y == 0 then none else some (x / y)

/-- The value of an operator on two values, if it is defined. -/
def binary? (op : BinaryOp) (x y : Value) : Option Value :=
  match op with
  | .eq | .ne | .lt | .gt | .le | .ge => (compare? op x y).map Value.bool
  | .isIn => (contains? x y).map Value.bool
  | .notIn => (contains? x y).map fun b => .bool !b
  | .bitOr => bitwise (combineBits (· || ·)) x y
  | .bitXor => bitwise (combineBits (· != ·)) x y
  | .bitAnd => bitwise (combineBits (· && ·)) x y
  | .shiftLeft =>
    match x, y with
    | .int a, .int n => if n < 0 || shiftLimit ≤ n then none else some (.int (scaled a n.toNat))
    | _, _ => none
  | .shiftRight =>
    match x, y with
    | .int a, .int n => if n < 0 || countLimit ≤ n then none else some (.int (Int.shiftRight a n.toNat))
    | _, _ => none
  | .add =>
    match x, y with
    | .str a, .str b => some (.str (a ++ b))
    | .list a, .list b => some (.list (a ++ b))
    | .tuple a, .tuple b => some (.tuple (a ++ b))
    | _, _ => arithmetic (fun a b => some (.int (a + b))) (fun a b => some (a + b)) x y
  | .sub => arithmetic (fun a b => some (.int (a - b))) (fun a b => some (a - b)) x y
  | .mul =>
    match x, y with
    | .int a, .int b => some (.int (a * b))
    | .int a, .float b => (toFloat? a).map fun a => .float (a * b)
    | .int n, s => repeatValue? s n
    | .float a, .int b => (toFloat? b).map fun b => .float (a * b)
    | s, .int n => repeatValue? s n
    | .float a, .float b => some (.float (a * b))
    | _, _ => none
  | .mod =>
    match x with
    | .str template => (interpolate? template y.arguments).map Value.str
    | _ =>
      arithmetic (fun a b => if b = 0 then none else some (.int (Int.fmod a b)))
        (fun a b => if b == 0 then none else some (floatMod a b)) x y
  | .div =>
    match x.toFloat?, y.toFloat? with
    | some a, some b => (divide? a b).map Value.float
    | _, _ => none
  | .floorDiv =>
    arithmetic (fun a b => if b = 0 then none else some (.int (Int.fdiv a b)))
      (fun a b => (divide? a b).map Float.floor) x y

/-- The value of a sign on a value, if it is defined. -/
def unary : UnaryOp → Value → Option Value
  | .plus, .int n => some (.int n)
  | .plus, .float x => some (.float x)
  | .minus, .int n => some (.int (-n))
  | .minus, .float x => some (.float (-x))
  | .complement, .int n => some (.int (-n - 1))
  | _, _ => none

end Expression

end VectorRisc
