/-
Module: VectorRisc.Text.Basic
Layer: Text
Purpose: Text as the tools see it: a plain sequence of bytes. Sources, labels and names may hold any
  bytes at all, so nothing here assumes that a text is well-formed UTF-8; the rules that do look at
  characters live in `VectorRisc.Text.Glyph` and work on every byte sequence.
Imports: none
Trusted boundary: none
Main exports: Text, ascii, Text.ofString, Text.after?, Text.isLabel, Text.lines
Open obligations: none
-/

namespace VectorRisc

/-- Text is a sequence of bytes, well-formed UTF-8 or not. -/
abbrev Text := List UInt8

/-- The byte of an ASCII character. -/
@[inline] def ascii (c : Char) : UInt8 := UInt8.ofNat c.toNat

namespace Text

/-- The UTF-8 bytes of a string. -/
def ofString (s : String) : Text := s.toByteArray.data.toList

/-- The text that follows `head`, if the text starts with it. -/
def after? : (head : Text) → Text → Option Text
  | [], t => some t
  | _ :: _, [] => none
  | h :: hs, b :: t => if h = b then after? hs t else none

/-- The pieces with `separator` between each two of them. -/
def join (separator : Text) : List Text → Text
  | [] => []
  | [t] => t
  | t :: ts => t ++ separator ++ join separator ts

/-- Every occurrence of the byte `mark` gives way to the text `value`. -/
def replaceByte (mark : UInt8) (value : Text) (t : Text) : Text :=
  t.flatMap fun b => if b = mark then value else [b]

/-- The first text stands before or at the second in byte order. -/
def atMost : Text → Text → Bool
  | [], _ => true
  | _ :: _, [] => false
  | a :: s, b :: t => a < b || (a = b && atMost s t)

/-- The texts in byte order. -/
def sort (ts : List Text) : List Text := ts.mergeSort atMost

/-! ### Byte classes -/

/-- An ASCII letter. -/
def isLetter (b : UInt8) : Bool :=
  (ascii 'a' ≤ b && b ≤ ascii 'z') || (ascii 'A' ≤ b && b ≤ ascii 'Z')

/-- A decimal digit. -/
def isDigit (b : UInt8) : Bool := ascii '0' ≤ b && b ≤ ascii '9'

/-- A byte that a name may start with: a letter or an underscore. -/
def isNameStart (b : UInt8) : Bool := isLetter b || b = ascii '_'

/-- A byte that a label may start with: a letter, an underscore or a dot. -/
def isLabelStart (b : UInt8) : Bool := isNameStart b || b = ascii '.'

/-- A byte that a label may go on with: digits and `$` are allowed too. -/
def isLabelByte (b : UInt8) : Bool := isLabelStart b || isDigit b || b = ascii '$'

/-- A label is a label start followed by label bytes. -/
def isLabel : Text → Bool
  | [] => false
  | b :: rest => isLabelStart b && rest.all isLabelByte

/-! ### Lines -/

/-- Cut at every line feed. The bytes of the current line are held in reverse; a text that ends in a
    line feed has no further, empty line after it. -/
def cutLines : (held : Text) → Text → List Text
  | held, [] => if held.isEmpty then [] else [held.reverse]
  | held, b :: rest =>
    if b = ascii '\n' then held.reverse :: cutLines [] rest else cutLines (b :: held) rest

/-- A carriage return right before the end of the line belongs to the line end. -/
def dropReturn (line : Text) : Text :=
  if line.getLast? = some (ascii '\r') then line.dropLast else line

/-- The lines of a text without their line ends. -/
def lines (t : Text) : List Text := (cutLines [] t).map dropReturn

/-- The longest line that can be read, in bytes, carriage return included. -/
def lineLimit : Nat := 65535

/-- Some line is longer than the limit. -/
def hasLongLine (t : Text) : Bool := (cutLines [] t).any fun line => lineLimit < line.length

end Text

end VectorRisc
