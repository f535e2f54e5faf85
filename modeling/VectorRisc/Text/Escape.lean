/-
Module: VectorRisc.Text.Escape
Layer: Text
Purpose: Texts in double quotes with escapes, as messages show a word that may hold any bytes.
Imports: VectorRisc.Numeral.Integer, VectorRisc.Text.Class.Graphic
Trusted boundary: none
Main exports: Text.QuoteStyle, Text.quoteAs, Text.quote
Open obligations: none
-/
import VectorRisc.Numeral.Integer
import VectorRisc.Text.Class.Graphic

namespace VectorRisc

namespace Text

/-- The letter that stands for a control character after a backslash. -/
def escapeLetter? (code : Nat) : Option Char :=
  match code with
  | 7 => some 'a'
  | 8 => some 'b'
  | 9 => some 't'
  | 10 => some 'n'
  | 11 => some 'v'
  | 12 => some 'f'
  | 13 => some 'r'
  | _ => none

/-- How a text is quoted: the mark around it, and whether only ASCII characters are shown. -/
structure QuoteStyle where
  mark : Char := '"'
  onlyAscii : Bool := false
deriving DecidableEq, Repr, Inhabited

/-- The code point is shown as it is. -/
def QuoteStyle.shows (style : QuoteStyle) (code : Nat) : Bool :=
  Class.graphic.contains code && (code < 0x80 || !style.onlyAscii)

/-- One character of a quoted text. -/
def quoteGlyph (style : QuoteStyle) (g : Glyph) : Text :=
  if g.code = style.mark.toNat || g.code = 0x5c then ascii '\\' :: g.bytes
  else if g.code = Glyph.replacement && g.bytes.length = 1 then
    g.bytes.flatMap fun b => ofString "\\x" ++ Numeral.hexPadded 2 b.toNat
  else if style.shows g.code then g.bytes
  else
    match escapeLetter? g.code with
    | some letter => [ascii '\\', ascii letter]
    | none =>
      if g.code < 0x80 then ofString "\\x" ++ Numeral.hexPadded 2 g.code
      else if g.code < 0x10000 then ofString "\\u" ++ Numeral.hexPadded 4 g.code
      else ofString "\\U" ++ Numeral.hexPadded 8 g.code

/-- The text in quotes. -/
def quoteAs (style : QuoteStyle) (t : Text) : Text :=
  [ascii style.mark] ++ t.glyphs.flatMap (quoteGlyph style) ++ [ascii style.mark]

/-- The text in double quotes. -/
def quote (t : Text) : Text := quoteAs {} t

end Text

end VectorRisc
