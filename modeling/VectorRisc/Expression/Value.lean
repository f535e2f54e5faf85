/-
Module: VectorRisc.Expression.Value
Layer: Expression
Purpose: The values of compile-time expressions: their order, and the items and slices of sequences.
  Integers have any size; integers and floats compare exactly; booleans are no integers. What is not
  defined has no result.
Imports: VectorRisc.Expression.Tree
Trusted boundary: these are the values of a part of the language that a host interprets
  (`VectorRisc.Command.Host`). 64-bit float comparison is that of `Float`
Main exports: Expression.Value, Expression.Value.truth, Expression.compare?, Expression.index?,
  Expression.slice?
Open obligations: none
-/
import VectorRisc.Expression.Tree

namespace VectorRisc

namespace Expression

/-- The functions that expressions can call. -/
inductive Function where
  | len
  | abs
  | min
  | max
  | int
  | float
  | ord
  | bool
  /-- A function that has a name but cannot be called here. -/
  | other (name : Text)
deriving DecidableEq, Repr, Inhabited

/-- A value. -/
inductive Value where
  | none
  | bool (b : Bool)
  | int (n : Int)
  | float (x : Float)
  | str (t : Text)
  | bytes (t : Text)
  | list (items : List Value)
  | tuple (items : List Value)
  | function (f : Function)
deriving Repr, Inhabited

namespace Value

/-- Whether a value counts as true: zero, and what is empty, does not. -/
def truth : Value → Bool
  | .none => false
  | .bool b => b
  | .int n => n ≠ 0
  | .float x => !(x == 0)
  | .str t => !t.isEmpty
  | .bytes t => !t.isEmpty
  | .list items => !items.isEmpty
  | .tuple items => !items.isEmpty
  | .function _ => true

end Value

/-! ### Integers and floats -/

/-- The float with a bit pattern. -/
def floatOf (pattern : Nat) : Float := Float.ofBits (UInt64.ofNat pattern)

/-- The float nearest to an integer, if it is finite. -/
def toFloat? (n : Int) : Option Float :=
  (Ieee.double.ofRatio? n.natAbs 1).map fun p => floatOf (Ieee.double.signed (n < 0) p)

/-- A finite float as an integer times a power of two. -/
def exact (x : Float) : Int × Int :=
  let pattern := x.toBits.toNat
  let (m, e) := Ieee.double.parts (pattern % Ieee.double.signBit)
  (if Ieee.double.signBit ≤ pattern then -(m : Int) else m, e)

/-- An integer times a power of two. -/
def scaled (n : Int) (power : Nat) : Int := n * (1 <<< power : Nat)

/-- A float as an integer, without its fraction; only a finite float has one. -/
def truncate? (x : Float) : Option Int :=
  if x.isNaN || x.isInf then none
  else
    let (m, e) := exact x
    some (if 0 ≤ e then scaled m e.toNat else Int.tdiv m (scaled 1 (-e).toNat))

/-- The order of an integer and a finite float, without rounding. -/
def compareExact (n : Int) (x : Float) : Ordering :=
  let (m, e) := exact x
  if 0 ≤ e then compare n (scaled m e.toNat) else compare (scaled n (-e).toNat) m

/-- The order of an integer and a float; every number is below what is none. -/
def compareMixed (n : Int) (x : Float) : Ordering :=
  if x.isNaN then .lt else if x.isInf then if x > 0 then .lt else .gt else compareExact n x

/-- The order of two floats; what is no number is equal to itself and above all numbers. -/
def compareFloat (x y : Float) : Ordering :=
  if x > y then .gt
  else if x < y then .lt
  else if x == y then .eq
  else if !x.isNaN then .lt
  else if !y.isNaN then .gt
  else .eq

/-- The order of two texts, byte by byte. -/
def compareText (s t : Text) : Ordering :=
  if s = t then .eq else if Text.atMost s t then .lt else .gt

/-! ### Comparison -/

/-- What a comparison says about an order. -/
def BinaryOp.holds : BinaryOp → Ordering → Bool
  | .eq, o => o = .eq
  | .ne, o => o ≠ .eq
  | .lt, o => o = .lt
  | .gt, o => o = .gt
  | .le, o => o ≠ .gt
  | .ge, o => o ≠ .lt
  | _, _ => false

/-- How deep nested lists and tuples are compared. -/
def compareLimit : Nat := 10

/-- Compare two sequences with a comparison of their items: as equal or unequal, or by the first items
    that differ. -/
def compareItems (test : BinaryOp → Value → Value → Option Bool) (op : BinaryOp) :
    List Value → List Value → Option Bool
  | [], [] => some (op.holds .eq)
  | [], _ :: _ => some (op.holds .lt)
  | _ :: _, [] => some (op.holds .gt)
  | x :: xs, y :: ys =>
    match test .eq x y with
    | none => none
    | some true => compareItems test op xs ys
    | some false =>
      match op with
      | .eq => some false
      | .ne => some true
      | _ => test op x y

/-- Compare two sequences; for equality alone their lengths come first. -/
def compareLists (test : BinaryOp → Value → Value → Option Bool) (op : BinaryOp)
    (xs ys : List Value) : Option Bool :=
  if xs.length ≠ ys.length && op = .eq then some false
  else if xs.length ≠ ys.length && op = .ne then some true
  else compareItems test op xs ys

/-- Compare two values. Values of different types are unequal and have no order, but for numbers. -/
def compareAt : (depth : Nat) → BinaryOp → Value → Value → Option Bool
  | 0, _, _, _ => none
  | depth + 1, op, x, y =>
    match x, y with
    | .bool a, .bool b => some (op.holds (compare a.toNat b.toNat))
    | .int a, .int b => some (op.holds (compare a b))
    | .float a, .float b => some (op.holds (compareFloat a b))
    | .int a, .float b => some (op.holds (compareMixed a b))
    | .float a, .int b => some (op.holds (compareMixed b a).swap)
    | .str a, .str b => some (op.holds (compareText a b))
    | .bytes a, .bytes b => some (op.holds (compareText a b))
    | .list a, .list b => compareLists (compareAt depth) op a b
    | .tuple a, .tuple b => compareLists (compareAt depth) op a b
    | .none, .none => onlyEquality op true
    | .function f, .function g => onlyEquality op (f = g)
    | _, _ => onlyEquality op false
where
  /-- Equality and its opposite are defined, and no order. -/
  onlyEquality (op : BinaryOp) (same : Bool) : Option Bool :=
    match op with
    | .eq => some same
    | .ne => some !same
    | _ => none

/-- Compare two values. -/
def compare? (op : BinaryOp) (x y : Value) : Option Bool := compareAt compareLimit op x y

/-- Some item equals a value. -/
def memberOf? (x : Value) : List Value → Option Bool
  | [] => some false
  | y :: ys =>
    match compare? .eq y x with
    | none => none
    | some true => some true
    | some false => memberOf? x ys

/-- The text occurs in another. -/
def occursIn (part : Text) : Text → Bool
  | [] => part.isEmpty
  | b :: rest => (Text.after? part (b :: rest)).isSome || occursIn part rest

/-- A value is in a list, a tuple or, for texts, a text; in bytes, also the number of a byte. -/
def contains? (x container : Value) : Option Bool :=
  match container with
  | .list items => memberOf? x items
  | .tuple items => memberOf? x items
  | .str t =>
    match x with
    | .str part => some (occursIn part t)
    | _ => none
  | .bytes t =>
    match x with
    | .bytes part => some (occursIn part t)
    | .int n => if n < 0 || 255 < n then none else some (t.contains (UInt8.ofNat n.toNat))
    | _ => none
  | _ => none

/-! ### Counts -/

/-- The number of integers that fit 32 bits and are not negative. -/
def countLimit : Int := 0x80000000

/-- The integer of a value that fits 32 bits. -/
def Value.count? : Value → Option Int
  | .int n => if n < -countLimit || countLimit ≤ n then Option.none else some n
  | _ => Option.none

/-! ### Items and slices -/

/-- The item of a sequence; a negative place counts from the end. -/
def item? {α : Type} (items : List α) (i : Int) : Option α :=
  let place := if i < 0 then i + items.length else i
  if place < 0 then none else items[place.toNat]?

/-- The item of a list, a tuple, a text or bytes. -/
def index? (x i : Value) : Option Value :=
  match x, i with
  | .list items, .int i => item? items i
  | .tuple items, .int i => item? items i
  | .str t, .int i => (item? t i).map fun b => .str [b]
  | .bytes t, .int i => (item? t i).map fun b => .int b.toNat
  | _, _ => none

/-- An end of a slice of a sequence of `size` items: `default` if it is left out, and a negative one
    counts from the end. -/
def bound? (size : Nat) (default : Int) : Value → Option Int
  | .none => some default
  | v => v.count?.map fun n => if n < 0 then n + size else n

/-- The places of a slice: where it starts, how many items it has, and how far apart they are. -/
structure Span where
  start : Int
  count : Nat
  step : Int
deriving DecidableEq, Repr, Inhabited

/-- The place of the slice's item with number `k`. -/
def Span.place (s : Span) (k : Nat) : Nat := (s.start + k * s.step).toNat

/-- The places from `first` up to, and without, `last`. A step that goes up starts from the first item
    and one that goes down from the last, and ends beyond the sequence are drawn in. -/
def span? (size : Nat) (first last step : Value) : Option Span :=
  let step? := match step with
    | .none => some 1
    | v => v.count?
  match step? with
  | none => none
  | some step =>
    if step = 0 then none
    else if 0 < step then
      match bound? size 0 first, bound? size size last with
      | some first, some last =>
        let start := min (max first 0) size
        let stop := min (max last 0) size
        some ⟨start, ((stop - start + step - 1) / step).toNat, step⟩
      | _, _ => none
    else
      match bound? size (size - 1) first, bound? size (-1) last with
      | some first, some last =>
        let start := min first (size - 1)
        let stop := max last (-1)
        some ⟨start, ((start - stop - step - 1) / -step).toNat, step⟩
      | _, _ => none

/-- The items of a sequence at the places of a slice. -/
def taken {α : Type} (items : List α) (s : Span) : List α :=
  let places := items.toArray
  (List.range s.count).filterMap fun k => places[s.place k]?

/-- A slice of a list, a tuple, a text or bytes. -/
def slice? (x first last step : Value) : Option Value :=
  match x with
  | .list items => (span? items.length first last step).map fun s => .list (taken items s)
  | .tuple items => (span? items.length first last step).map fun s => .tuple (taken items s)
  | .str t => (span? t.length first last step).map fun s => .str (taken t s)
  | .bytes t => (span? t.length first last step).map fun s => .bytes (taken t s)
  | _ => none

end Expression

end VectorRisc
