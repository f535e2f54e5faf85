/-
Module: VectorRisc.Text.Glyph
Layer: Text
Purpose: The characters of a text. A byte sequence is cut into glyphs: a well-formed UTF-8 sequence is
  one glyph, and a byte that starts none is a glyph of its own, shown as the replacement character.
  On top of the cut stand the rules that look at blanks: trimming, fields, the first word.
Imports: VectorRisc.Text.Basic
Trusted boundary: none
Main exports: Glyph, Text.glyphs, Text.encodePoint, Text.display, Text.trim, Text.fields, Text.splitWord
Open obligations: none
-/
import VectorRisc.Text.Basic

namespace VectorRisc

/-- One character of a text: its code point and the bytes it stands in. -/
structure Glyph where
  code : Nat
  bytes : Text
deriving DecidableEq, Repr, Inhabited

namespace Glyph

/-- The code point that stands for a byte outside every well-formed sequence. -/
def replacement : Nat := 0xfffd

/-- What a lead byte asks for: the number of bytes that follow it and the range of the first of them.
    The range keeps out overlong forms, surrogates and code points above `0x10ffff`. -/
def lead? (b : UInt8) : Option (Nat × UInt8 × UInt8) :=
  if b < 0xc2 then none
  else if b ≤ 0xdf then some (1, 0x80, 0xbf)
  else if b = 0xe0 then some (2, 0xa0, 0xbf)
  else if b = 0xed then some (2, 0x80, 0x9f)
  else if b ≤ 0xef then some (2, 0x80, 0xbf)
  else if b = 0xf0 then some (3, 0x90, 0xbf)
  else if b ≤ 0xf3 then some (3, 0x80, 0xbf)
  else if b = 0xf4 then some (3, 0x80, 0x8f)
  else none

/-- The payload bits of a lead byte that `n` bytes follow. -/
def leadBits (b : UInt8) (n : Nat) : Nat := b.toNat % (1 <<< (6 - n))

/-- Append the six payload bits of each following byte. -/
def foldTail (code : Nat) (tail : Text) : Nat :=
  tail.foldl (fun acc b => acc * 64 + b.toNat % 64) code

/-- Following bytes are well formed: the first is in the lead's range and the others are plain
    continuation bytes. -/
def tailFits (lo hi : UInt8) : Text → Bool
  | [] => false
  | b :: rest => lo ≤ b && b ≤ hi && rest.all fun c => 0x80 ≤ c && c ≤ 0xbf

/-- The glyph at the front of `b :: rest`. -/
def first (b : UInt8) (rest : Text) : Glyph :=
  if b < 0x80 then ⟨b.toNat, [b]⟩
  else
    match lead? b with
    | none => ⟨replacement, [b]⟩
    | some (n, lo, hi) =>
      let tail := rest.take n
      if tail.length = n && tailFits lo hi tail then ⟨foldTail (leadBits b n) tail, b :: tail⟩
      else ⟨replacement, [b]⟩

/-- A glyph takes at least one byte. -/
theorem first_bytes_pos (b : UInt8) (rest : Text) : 0 < (first b rest).bytes.length := by
  unfold first
  split
  · simp
  · cases lead? b with
    | none => simp
    | some ask => dsimp only; split <;> simp

/-- White space: the six ASCII blanks, the two of Latin-1, and the space separators. -/
def blankCode (code : Nat) : Bool :=
  (9 ≤ code && code ≤ 13) || code = 0x20 || code = 0x85 || code = 0xa0 || code = 0x1680 ||
    (0x2000 ≤ code && code ≤ 0x200a) || code = 0x2028 || code = 0x2029 || code = 0x202f ||
    code = 0x205f || code = 0x3000

/-- The glyph is white space. -/
def isBlank (g : Glyph) : Bool := blankCode g.code

end Glyph

namespace Text

/-- Cut a text into glyphs, passing over the first `skip` bytes, which belong to a glyph already cut. -/
def glyphsFrom : (skip : Nat) → Text → List Glyph
  | _, [] => []
  | skip + 1, _ :: rest => glyphsFrom skip rest
  | 0, b :: rest =>
    let g := Glyph.first b rest
    g :: glyphsFrom (g.bytes.length - 1) rest

/-- The glyphs of a text, in order. -/
def glyphs (t : Text) : List Glyph := glyphsFrom 0 t

/-- The bytes of a run of glyphs. -/
def ofGlyphs (gs : List Glyph) : Text := gs.flatMap Glyph.bytes

/-- The code point is a character: no surrogate, and not above the last plane. -/
def isPoint (code : Nat) : Bool := code < 0xd800 || (0xe000 ≤ code && code ≤ 0x10ffff)

/-- The UTF-8 bytes of a code point; the replacement character stands in for what is none. -/
def encodePoint (code : Nat) : Text :=
  let c := if isPoint code then code else Glyph.replacement
  let tail (shift : Nat) : UInt8 := UInt8.ofNat (0x80 + (c >>> shift) % 64)
  if c < 0x80 then [UInt8.ofNat c]
  else if c < 0x800 then [UInt8.ofNat (0xc0 + c / 64), tail 0]
  else if c < 0x10000 then [UInt8.ofNat (0xe0 + c / 4096), tail 6, tail 0]
  else [UInt8.ofNat (0xf0 + c / 262144), tail 12, tail 6, tail 0]

/-- The text as a string to show: a byte outside every well-formed sequence shows as U+FFFD. -/
def display (t : Text) : String := String.ofList (t.glyphs.map fun g => Char.ofNat g.code)

/-- The UTF-16 units of a code point, low byte first. -/
def units16 (code : Nat) : Text :=
  let unit (u : Nat) : Text := [UInt8.ofNat u, UInt8.ofNat (u / 256)]
  if code < 0x10000 then unit code
  else unit (0xd800 + (code - 0x10000) / 1024) ++ unit (0xdc00 + (code - 0x10000) % 1024)

/-- The text as UTF-16 with the low byte of each unit first and no byte order mark. -/
def toUtf16 (t : Text) : Text := t.glyphs.flatMap fun g => units16 g.code

/-! ### Blanks -/

/-- The text without white space at either end. -/
def trim (t : Text) : Text :=
  let gs := t.glyphs.dropWhile Glyph.isBlank
  ofGlyphs ((gs.reverse.dropWhile Glyph.isBlank).reverse)

/-- Cut a run of glyphs at every blank one and drop the empty pieces. The glyphs of the current piece
    are held in reverse. -/
def fieldsFrom : (held : List Glyph) → List Glyph → List Text
  | held, [] => if held.isEmpty then [] else [ofGlyphs held.reverse]
  | held, g :: gs =>
    if g.isBlank then
      if held.isEmpty then fieldsFrom [] gs else ofGlyphs held.reverse :: fieldsFrom [] gs
    else fieldsFrom (g :: held) gs

/-- The white-space separated words of a text. -/
def fields (t : Text) : List Text := fieldsFrom [] t.glyphs

/-- The text up to its first white space, and the text from there on. -/
def splitWord (t : Text) : Text × Text :=
  let gs := t.glyphs
  (ofGlyphs (gs.takeWhile fun g => !g.isBlank), ofGlyphs (gs.dropWhile fun g => !g.isBlank))

end Text

end VectorRisc
