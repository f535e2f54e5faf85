/-
Module: VectorRisc.Expression.StringLiteral
Layer: Expression
Purpose: String literals of compile-time expressions. A literal is one or three marks, a body and the
  same marks again; the letters `r` and `b` before it leave its escapes as they are and make it a string
  of bytes. The end of the literal is found first, and then its escapes are read.
Imports: VectorRisc.Text.Quoted
Trusted boundary: these are literals of the language that a host interprets (`VectorRisc.Command.Host`)
Main exports: Expression.StringLiteral, Expression.StringLiteral.opening?,
  Expression.StringLiteral.read?
Open obligations: none
-/
import VectorRisc.Text.Quoted

namespace VectorRisc

namespace Expression

/-- How a string literal is written: `raw` leaves its escapes as they are, `bytes` makes it a string of
    bytes, and `mark` stands `marks` times at either end. -/
structure StringLiteral where
  raw : Bool
  bytes : Bool
  mark : UInt8
  marks : Nat
deriving DecidableEq, Repr, Inhabited

namespace StringLiteral

/-- The letters that may stand before the marks, with what they say: `raw`, and then `bytes`. -/
def openings : List (Text × Bool × Bool) :=
  [("", false, false), ("r", true, false), ("b", false, true), ("rb", true, true)].map
    fun (letters, kind) => (Text.ofString letters, kind)

/-- The literal at the front of a text, and the text after its opening marks. -/
def opening? (t : Text) : Option (StringLiteral × Text) :=
  openings.findSome? fun (letters, raw, bytes) =>
    match Text.after? letters t with
    | some (mark :: rest) =>
      if !Quote.isMark mark then none
      else
        match Text.after? [mark, mark] rest with
        | some body => some (⟨raw, bytes, mark, 3⟩, body)
        | none => some (⟨raw, bytes, mark, 1⟩, rest)
    | _ => none

/-! ### The end of a literal -/

/-- The length of the body and the closing marks. `run` marks stand right before; a backslash keeps the
    next byte from closing the literal, and a line ends only inside three marks. -/
def closing? (l : StringLiteral) : (run : Nat) → (escaped : Bool) → Text → Option Nat
  | _, _, [] => none
  | _, true, _ :: rest => (l.closing? 0 false rest).map (· + 1)
  | run, false, b :: rest =>
    if b = l.mark then
      if run + 1 = l.marks then some 1 else (l.closing? (run + 1) false rest).map (· + 1)
    else if b = ascii '\r' && l.marks = 1 then none
    else (l.closing? 0 (b = ascii '\\') rest).map (· + 1)

/-! ### Escapes -/

/-- A byte that is written as a number has to be ASCII in a string of characters. -/
def fits (l : StringLiteral) (value : Nat) : Bool := value < if l.bytes then 256 else 128

/-- The bytes of the escape whose letter is `c`, and what follows it. Either mark may be escaped, an
    octal escape has up to three digits, and an escaped line end is passed over. -/
def escape? (l : StringLiteral) (c : UInt8) (more : Text) : Option (Text × Text) :=
  if Quote.isMark c then some ([c], more)
  else if c = ascii '\n' then some ([], more)
  else if (Literal.octalDigit? c).isSome then
    let digits := (c :: more).take 3 |>.takeWhile fun b => (Literal.octalDigit? b).isSome
    let value := digits.foldl (fun acc b => acc * 8 + (b.toNat - 48)) 0
    if l.fits value then some ([UInt8.ofNat value], (c :: more).drop digits.length) else none
  else
    match Literal.escape? l.mark c more with
    | some (e, left) => if e.wide || l.fits e.value then some (e.bytes, left) else none
    | none => none

/-- The bytes that a body stands for. Every step takes at least one byte, so that `fuel` bytes need no
    more than `fuel` steps. -/
def unescape? (l : StringLiteral) : (fuel : Nat) → Text → Option Text
  | _, [] => some []
  | 0, _ :: _ => none
  | fuel + 1, b :: rest =>
    if b = ascii '\\' then
      match rest with
      | c :: more =>
        match l.escape? c more with
        | none => none
        | some (bytes, left) => (l.unescape? fuel left).map (bytes ++ ·)
      | [] => none
    else (l.unescape? fuel rest).map (b :: ·)

/-- The bytes that a body stands for. A carriage return in it is a line end. -/
def value? (l : StringLiteral) (body : Text) : Option Text :=
  let body := body.map fun b => if b = ascii '\r' then ascii '\n' else b
  if l.raw then some body else l.unescape? body.length body

/-! ### Literals -/

/-- The number of bytes before the body: letters and marks. -/
def lead (l : StringLiteral) : Nat := l.raw.toNat + l.bytes.toNat + l.marks

/-- The bytes of a literal and its length, from the text after its opening marks; none if the literal is
    not closed or has an escape that is none. -/
def read? (l : StringLiteral) (rest : Text) : Option (Text × Nat) :=
  match l.closing? 0 false rest with
  | none => none
  | some length => (l.value? (rest.take (length - l.marks))).map fun value => (value, l.lead + length)

end StringLiteral

end Expression

end VectorRisc
