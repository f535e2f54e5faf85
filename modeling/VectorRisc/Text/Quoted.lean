/-
Module: VectorRisc.Text.Quoted
Layer: Text
Purpose: Quotes in a source line. The first half says which bytes of a line stand inside quotes, and
  cuts lines only at bytes that do not; lists of operands are cut character by character. The second
  half reads the literals themselves: a character or a string with its escapes.
Imports: VectorRisc.Text.Glyph
Trusted boundary: none
Main exports: Quote, Quote.step, Quote.bares, Quote.stepGlyph, Text.beforeUnquoted, Text.cutUnquoted?,
  Text.splitOperands, Literal.char?, Literal.string?
Open obligations: none
-/
import VectorRisc.Text.Glyph

namespace VectorRisc

/-- Where a scan of a line stands: outside quotes, inside the quotes that `mark` opened, or right
    after a backslash inside them. -/
inductive Quote where
  | outside
  | inside (mark : UInt8)
  | escaped (mark : UInt8)
deriving DecidableEq, Repr, Inhabited

namespace Quote

/-- A byte that opens quotes: `"` or `'`. -/
def isMark (b : UInt8) : Bool := b = ascii '"' || b = ascii '\''

/-- One byte further. Inside quotes a backslash protects the next byte and the mark that opened the
    quotes closes them. -/
def step : Quote → UInt8 → Quote
  | .outside, b => if isMark b then .inside b else .outside
  | .inside mark, b =>
    if b = ascii '\\' then .escaped mark else if b = mark then .outside else .inside mark
  | .escaped mark, _ => .inside mark

/-- Where the scan stands after a whole text. -/
def after (q : Quote) (t : Text) : Quote := t.foldl step q

/-- The byte that comes next stands outside quotes and opens none. -/
def bares (q : Quote) (b : UInt8) : Bool := q = .outside && !isMark b

end Quote

namespace Glyph

/-- The glyph stands for the character. -/
def shows (c : Char) (g : Glyph) : Bool := g.code = c.toNat

/-- How an unquoted character moves the parenthesis depth. -/
def depthStep (g : Glyph) : Int := if g.shows '(' then 1 else if g.shows ')' then -1 else 0

end Glyph

/-- One character further. A backslash protects the next character whole, however many bytes it has. -/
def Quote.stepGlyph : Quote → Glyph → Quote
  | .outside, g => if g.shows '"' || g.shows '\'' then .inside (UInt8.ofNat g.code) else .outside
  | .inside mark, g =>
    if g.shows '\\' then .escaped mark else if g.code = mark.toNat then .outside else .inside mark
  | .escaped mark, _ => .inside mark

namespace Text

/-- The text up to the first unquoted `stop`, scanning from `q`. -/
def beforeUnquotedFrom (stop : UInt8) : (q : Quote) → Text → Text
  | _, [] => []
  | q, b :: rest =>
    if q.bares b && b = stop then [] else b :: beforeUnquotedFrom stop (q.step b) rest

/-- The text up to the first unquoted `stop`, or the whole text if there is none. -/
def beforeUnquoted (stop : UInt8) (t : Text) : Text := beforeUnquotedFrom stop .outside t

/-- The text on either side of the first unquoted `stop`. The bytes passed are held in reverse. -/
def cutUnquotedFrom (stop : UInt8) : (q : Quote) → (held : Text) → Text → Option (Text × Text)
  | _, _, [] => none
  | q, held, b :: rest =>
    if q.bares b && b = stop then some (held.reverse, rest)
    else cutUnquotedFrom stop (q.step b) (b :: held) rest

/-- The text before and after the first unquoted `stop`, if there is one. The mark of a quote never
    stands unquoted. -/
def cutUnquoted? (stop : UInt8) (t : Text) : Option (Text × Text) :=
  cutUnquotedFrom stop .outside [] t

/-- Cut at every unquoted comma at depth zero. The glyphs of the current piece are held in reverse. -/
def cutOperands : (q : Quote) → (depth : Int) → (held : List Glyph) → List Glyph → List Text
  | _, _, held, [] => [ofGlyphs held.reverse]
  | .outside, depth, held, g :: rest =>
    if g.shows ',' && depth = 0 then ofGlyphs held.reverse :: cutOperands .outside 0 [] rest
    else cutOperands (Quote.outside.stepGlyph g) (depth + g.depthStep) (g :: held) rest
  | q, depth, held, g :: rest => cutOperands (q.stepGlyph g) depth (g :: held) rest

/-- An operand list: the trimmed pieces between commas outside quotes and parentheses. A blank text
    has no operands. -/
def splitOperands (t : Text) : List Text :=
  let body := t.trim
  if body.isEmpty then [] else (cutOperands .outside 0 [] body.glyphs).map trim

end Text

/-! ### Literals -/

namespace Literal

/-- One character of a literal: its value, and whether it stands for a code point (and so for its
    UTF-8 bytes) or for a single byte. -/
structure Element where
  value : Nat
  wide : Bool
deriving DecidableEq, Repr, Inhabited

/-- The bytes that a character of a literal stands for. -/
def Element.bytes (e : Element) : Text :=
  if e.value < 0x80 || !e.wide then [UInt8.ofNat e.value] else Text.encodePoint e.value

/-- The value of a hexadecimal digit. -/
def hexDigit? (b : UInt8) : Option Nat :=
  if Text.isDigit b then some (b.toNat - 48)
  else if ascii 'a' ≤ b && b ≤ ascii 'f' then some (b.toNat - 87)
  else if ascii 'A' ≤ b && b ≤ ascii 'F' then some (b.toNat - 55)
  else none

/-- The value of an octal digit. -/
def octalDigit? (b : UInt8) : Option Nat :=
  if ascii '0' ≤ b && b ≤ ascii '7' then some (b.toNat - 48) else none

/-- The value of exactly `n` digits at the front, and the rest. -/
def takeDigits? (digit? : UInt8 → Option Nat) (base : Nat) :
    (n : Nat) → (value : Nat) → Text → Option (Nat × Text)
  | 0, value, t => some (value, t)
  | _ + 1, _, [] => none
  | n + 1, value, b :: rest =>
    match digit? b with
    | none => none
    | some d => takeDigits? digit? base n (value * base + d) rest

/-- The control characters that have a letter of their own after a backslash. -/
def controlEscape? (b : UInt8) : Option Nat :=
  if b = ascii 'a' then some 7
  else if b = ascii 'b' then some 8
  else if b = ascii 'f' then some 12
  else if b = ascii 'n' then some 10
  else if b = ascii 'r' then some 13
  else if b = ascii 't' then some 9
  else if b = ascii 'v' then some 11
  else none

/-- A code point written with `n` hexadecimal digits. -/
def pointEscape? (n : Nat) (t : Text) : Option (Element × Text) :=
  match takeDigits? hexDigit? 16 n 0 t with
  | some (v, rest) => if Text.isPoint v then some (⟨v, true⟩, rest) else none
  | none => none

/-- The escape whose letter is `b`, inside quotes of the kind `mark`. Only the enclosing mark may be
    escaped, an octal escape has three digits and stays below 256. -/
def escape? (mark b : UInt8) (rest : Text) : Option (Element × Text) :=
  match controlEscape? b with
  | some v => some (⟨v, false⟩, rest)
  | none =>
    if b = ascii 'x' then (takeDigits? hexDigit? 16 2 0 rest).map fun (v, r) => (⟨v, false⟩, r)
    else if b = ascii 'u' then pointEscape? 4 rest
    else if b = ascii 'U' then pointEscape? 8 rest
    else if b = ascii '\\' then some (⟨b.toNat, false⟩, rest)
    else if Quote.isMark b then if b = mark then some (⟨b.toNat, false⟩, rest) else none
    else
      match octalDigit? b with
      | none => none
      | some _ =>
        match takeDigits? octalDigit? 8 3 0 (b :: rest) with
        | some (v, r) => if v ≤ 255 then some (⟨v, false⟩, r) else none
        | none => none

/-- The character at the front of the inside of a literal quoted by `mark`. -/
def element? (mark : UInt8) : Text → Option (Element × Text)
  | [] => none
  | b :: rest =>
    if b = mark then none
    else if b ≥ 0x80 then
      let g := Glyph.first b rest
      some (⟨g.code, true⟩, rest.drop (g.bytes.length - 1))
    else if b ≠ ascii '\\' then some (⟨b.toNat, false⟩, rest)
    else
      match rest with
      | [] => none
      | c :: more => escape? mark c more

/-- The value of a character literal: one character between apostrophes. -/
def char? (t : Text) : Option Nat :=
  match t with
  | open_ :: body =>
    if open_ = ascii '\'' && 2 ≤ body.length && body.getLast? = some (ascii '\'') then
      match element? (ascii '\'') body.dropLast with
      | some (e, []) => some e.value
      | _ => none
    else none
  | [] => none

/-- The text is written like a character literal: apostrophes around at least one byte. -/
def looksLikeChar (t : Text) : Bool :=
  3 ≤ t.length && t.head? = some (ascii '\'') && t.getLast? = some (ascii '\'')

/-- The bytes of the rest of a string literal up to the closing mark, which must end the text. A line
    feed has to be escaped. Every step takes at least one byte, so `fuel` bytes of text need no more
    than `fuel` steps. -/
def stringBody? (mark : UInt8) : (fuel : Nat) → Text → Option Text
  | 0, _ => none
  | _ + 1, [] => none
  | fuel + 1, b :: rest =>
    if b = mark then if rest.isEmpty then some [] else none
    else if b = ascii '\n' then none
    else
      match element? mark (b :: rest) with
      | none => none
      | some (e, more) => (stringBody? mark fuel more).map (e.bytes ++ ·)

/-- The bytes that a string literal in double quotes stands for. -/
def string? (t : Text) : Option Text :=
  match t with
  | [] => none
  | b :: rest => if b = ascii '"' then stringBody? b (rest.length + 1) rest else none

end Literal

end VectorRisc
