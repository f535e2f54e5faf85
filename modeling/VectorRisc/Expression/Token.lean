/-
Module: VectorRisc.Expression.Token
Layer: Expression
Purpose: The words of compile-time expressions: integers of any size, floats, strings, names, keywords
  and operators. Of two operators the longer one is read. A carriage return ends a line, unless it
  stands inside brackets or after a backslash.
Imports: VectorRisc.Expression.StringLiteral, VectorRisc.Numeral.Ieee, VectorRisc.Text.Class.Letter
Trusted boundary: these are words of the language that a host interprets (`VectorRisc.Command.Host`), as far as
  expressions of sources use it
Main exports: Expression.Token, Expression.tokens?
Open obligations: none
-/
import VectorRisc.Expression.StringLiteral
import VectorRisc.Numeral.Ieee
import VectorRisc.Text.Class.Letter

namespace VectorRisc

namespace Expression

/-- A word of an expression. Keywords and operators are kept as they are written; a float is the bit
    pattern of a 64-bit number. A new line counts only outside brackets. -/
inductive Token where
  | int (value : Nat)
  | float (pattern : Nat)
  | str (value : Text)
  | bytes (value : Text)
  | name (text : Text)
  | sign (text : Text)
  | newline
deriving DecidableEq, Repr, Inhabited

/-- Names that cannot be used as such. Those that no expression uses are refused by the grammar. -/
def keywords : List Text :=
  ["and", "break", "continue", "def", "elif", "else", "for", "if", "in", "lambda", "load", "not",
    "or", "pass", "return", "while", "as", "async", "await", "class", "del", "except", "finally",
    "from", "global", "import", "is", "nonlocal", "raise", "try", "with", "yield"].map Text.ofString

/-- Operators and brackets, longer ones before those they start with. -/
def signs : List Text :=
  ["<<=", ">>=", "//=", "**", "//", "<<", ">>", "<=", ">=", "==", "!=", "+=", "-=", "*=", "/=", "%=",
    "&=", "|=", "^=", "+", "-", "*", "/", "%", "&", "|", "^", "~", "<", ">", "=", "(", ")", "[", "]",
    "\x7b", "\x7d", ",", ".", ":", ";"].map Text.ofString

/-! ### Numbers -/

/-- A token together with the number of bytes it takes. -/
abbrev Taken := Token × Nat

/-- The length of the longest run of bytes of a class at the front. -/
def runLength (p : UInt8 → Bool) (t : Text) : Nat := (t.takeWhile p).length

/-- The bytes of an exponent at the front, with its mark: none if there is no mark, an error if a sign
    is not followed by a digit. -/
def exponentLength? (t : Text) : Option Nat :=
  match t with
  | e :: rest =>
    if e = ascii 'e' || e = ascii 'E' then
      match rest with
      | s :: more =>
        if s = ascii '+' || s = ascii '-' then
          if more.head?.any Text.isDigit then some (2 + runLength Text.isDigit more) else none
        else some (1 + runLength Text.isDigit rest)
      | [] => some 1
    else some 0
  | [] => some 0

/-- A float of a given length at the front. -/
def floatToken? (t : Text) (length : Nat) : Option Taken :=
  match Ieee.double.read (t.take length) with
  | .ok pattern => some (.float pattern, length)
  | .error _ => none

/-- The rest of a number whose first `whole` bytes are its digits before the point: a float if a point
    or an exponent follows, else an integer as `integer?` reads it. -/
def numberToken? (t : Text) (whole : Nat) (integer? : Option Token) : Option Taken :=
  let rest := t.drop whole
  let fraction := if rest.head? = some (ascii '.') then 1 + runLength Text.isDigit rest.tail else 0
  match exponentLength? (rest.drop fraction) with
  | none => none
  | some exponent =>
    if fraction + exponent = 0 then integer?.map fun token => (token, whole)
    else floatToken? t (whole + fraction + exponent)

/-- An integer after a base mark; `limit` bounds the bases whose literals have to fit 64 bits. -/
def markedToken? (t : Text) (base : Nat) (limit : Option Nat) : Option Taken :=
  let digits := (t.drop 2).takeWhile fun b => (Literal.hexDigit? b).any (· < base)
  if digits.isEmpty then none
  else
    let value := digits.foldl (fun acc b => acc * base + (Literal.hexDigit? b).getD 0) 0
    if limit.any (· < value) then none else some (.int value, 2 + digits.length)

/-- The greatest literal of the bases two and eight. -/
def smallLimit : Nat := 0x7fffffffffffffff

/-- The value of decimal digits. -/
def decimalValue (digits : Text) : Nat := digits.foldl (fun acc b => acc * 10 + (b.toNat - 48)) 0

/-- The number at the front of a text that starts with a digit, or with a point before a digit. An
    integer has no leading zeros, unless it is zero. -/
def number? (t : Text) : Option Taken :=
  match t with
  | z :: m :: _ =>
    if z = ascii '0' then
      match Numeral.markBase? m with
      | some 16 => markedToken? t 16 none
      | some base => markedToken? t base (some smallLimit)
      | none => plainNumber? t
    else plainNumber? t
  | _ => plainNumber? t
where
  /-- A number without a base mark. -/
  plainNumber? (t : Text) : Option Taken :=
    let digits := t.takeWhile Text.isDigit
    let zeros := digits.all (· = ascii '0')
    let integer? :=
      if digits.head? = some (ascii '0') && !zeros then none
      else some (Token.int (decimalValue digits))
    numberToken? t digits.length integer?

/-! ### Words -/

/-- The longest operator at the front. -/
def sign? (t : Text) : Option Taken :=
  (signs.find? fun s => (Text.after? s t).isSome).map fun s => (.sign s, s.length)

/-- A character that a name may start with: an underscore, or a letter of any script. -/
def startsName (g : Glyph) : Bool :=
  if g.code < 0x80 then g.bytes.all Text.isNameStart else Text.Class.letter.contains g.code

/-- A character that a name may go on with: decimal digits are allowed too. -/
def continuesName (g : Glyph) : Bool := startsName g || g.bytes.all Text.isDigit

/-- The length of the name at the front of a text, after `skip` bytes of a character already read. -/
def nameLength : (skip : Nat) → Text → Nat
  | _, [] => 0
  | skip + 1, _ :: rest => nameLength skip rest + 1
  | 0, b :: rest =>
    let g := Glyph.first b rest
    if continuesName g then nameLength (g.bytes.length - 1) rest + 1 else 0

/-- The name or keyword at the front of a text that starts with one. -/
def word (t : Text) : Taken :=
  let name := t.take (nameLength 0 t)
  (if keywords.contains name then .sign name else .name name, name.length)

/-- The token at the front of a text that starts with a byte other than a blank. -/
def token? (t : Text) : Option Taken :=
  match t with
  | [] => none
  | b :: rest =>
    if Text.isDigit b || (b = ascii '.' && rest.head?.any Text.isDigit) then number? t
    else
      match StringLiteral.opening? t with
      | some (kind, body) =>
        (kind.read? body).map fun (value, n) => (if kind.bytes then .bytes value else .str value, n)
      | none => if startsName (Glyph.first b rest) then some (word t) else sign? t

/-! ### Lines -/

/-- A blank inside a line. -/
def isGap (b : UInt8) : Bool := b = ascii ' ' || b = ascii '\t'

/-- A byte that ends a line or the whole text. -/
def isStop (b : UInt8) : Bool := b = ascii '\r' || b = 0

/-- The line at the front of a text starts with blanks and is not blank itself. -/
def isIndented (t : Text) : Bool :=
  t.head?.any isGap && (t.dropWhile isGap).head?.any fun b => !isStop b && b ≠ ascii '#'

/-- The number of open brackets after a token. -/
def Token.depth (depth : Nat) : Token → Nat
  | .sign [b] =>
    if b = ascii '(' || b = ascii '[' || b = ascii '\x7b' then depth + 1
    else if b = ascii ')' || b = ascii ']' || b = ascii '\x7d' then depth - 1
    else depth
  | _ => depth

/-- The tokens of a text inside `depth` brackets, after passing over `skip` bytes already read. A `#`
    starts a comment, and a zero byte ends the text. -/
def tokensFrom? : (depth skip : Nat) → Text → Option (List Token)
  | _, _, [] => some []
  | depth, skip + 1, _ :: rest => tokensFrom? depth skip rest
  | depth, 0, b :: rest =>
    if isGap b then tokensFrom? depth 0 rest
    else if b = 0 then some []
    else if b = ascii '#' then tokensFrom? depth (runLength (fun c => !isStop c) rest) rest
    else if b = ascii '\r' then
      if 0 < depth then tokensFrom? depth 0 rest
      else if isIndented rest then none
      else (tokensFrom? depth 0 rest).map (.newline :: ·)
    else if b = ascii '\\' then
      if rest.head?.any (· ≠ ascii '\r') then none else tokensFrom? depth 1 rest
    else
      match token? (b :: rest) with
      | none => none
      | some (token, n) => (tokensFrom? (token.depth depth) (n - 1) rest).map (token :: ·)

/-- The text with the replacement character for every byte outside well-formed sequences. -/
def wellFormed (t : Text) : Text := t.glyphs.flatMap fun g => Text.encodePoint g.code

/-- The tokens of a text, or none if some part of it is no token. -/
def tokens? (t : Text) : Option (List Token) := tokensFrom? 0 0 (wellFormed t)

end Expression

end VectorRisc
