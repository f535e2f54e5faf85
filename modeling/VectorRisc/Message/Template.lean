/-
Module: VectorRisc.Message.Template
Layer: Message
Purpose: Message templates. A place in a template is a percent sign, flags, a width, a precision and a
  verb. Decimal integers are grouped in threes; a place that does not fit its argument says so in the
  text.
Imports: VectorRisc.Text.Escape
Trusted boundary: the places are those of a library that formats messages, as it fills them for US English. No
  proof rests on the texts that it makes
Main exports: Message.Argument, Message.Place, Message.format
Open obligations: none
-/
import VectorRisc.Text.Escape

namespace VectorRisc

namespace Message

/-- What a template's place can hold. -/
inductive Argument where
  | text (t : Text)
  | unsigned (n : UInt64)
  | signed (n : Int64)
deriving DecidableEq, Repr, Inhabited

/-- The kind of an argument, as a misfit shows it. -/
def Argument.kind : Argument → String
  | .text _ => "string"
  | .unsigned _ => "uint64"
  | .signed _ => "int64"

/-- How a place asks for its argument to be written. `sharp` asks for another form, `literal` for that
    of a source text. -/
structure Place where
  minus : Bool := false
  zero : Bool := false
  plus : Bool := false
  space : Bool := false
  sharp : Bool := false
  literal : Bool := false
  width : Option Nat := none
  precision : Option Nat := none
deriving DecidableEq, Repr, Inhabited

/-! ### Writing an argument -/

namespace Place

/-- Some characters more than the text, to make up a width. -/
def padding (width : Nat) (t : Text) (c : Char) : Text :=
  List.replicate (width - t.glyphs.length) (ascii c)

/-- The text at the end of the field, or at its start for `minus`. -/
def padWith (p : Place) (c : Char) (t : Text) : Text :=
  let gap := padding (p.width.getD 0) t c
  if p.minus then t ++ gap else gap ++ t

/-- The text in its field, with zeros before it if `zero` asks for them. -/
def pad (p : Place) (t : Text) : Text := p.padWith (if p.zero then '0' else ' ') t

/-- The sign before a number. -/
def sign (p : Place) (negative : Bool) : Text :=
  if negative then [ascii '-']
  else if p.plus then [ascii '+']
  else if p.space then [ascii ' ']
  else []

/-- Digits with zeros before them, at least `count`. -/
def atLeast (count : Nat) (digits : Text) : Text :=
  List.replicate (count - digits.length) (ascii '0') ++ digits

/-- The mark of a base before the digits. -/
def baseMark (p : Place) (base : Nat) (digits : Text) : Text :=
  if !p.sharp then []
  else if base = 8 then if digits.head? = some (ascii '0') then [] else [ascii '0']
  else if base = 16 then Text.ofString "0x"
  else []

/-- An integer in a base, not grouped. A field filled with zeros leaves room for the sign; precision
    zero leaves nothing of zero. -/
def integer (p : Place) (base : Nat) (n : Int) : Text :=
  if p.precision = some 0 && n = 0 then p.padWith ' ' []
  else
    let sign := p.sign (n < 0)
    let count :=
      match p.precision with
      | some digits => digits
      | none => if p.zero then p.width.getD 0 - sign.length else 0
    let digits := atLeast count (Numeral.natural base n.natAbs)
    p.padWith ' ' (sign ++ p.baseMark base digits ++ digits)

/-- An integer in capital hexadecimal digits. -/
def capitals (t : Text) : Text :=
  t.map fun b => if ascii 'a' ≤ b && b ≤ ascii 'z' then b - 32 else b

/-- The least number of digits of a decimal integer, as far as a byte can tell. -/
def leastDigits (p : Place) : Nat :=
  match p.precision, p.width with
  | some digits, _ => digits % 256
  | none, some width =>
    let width := if p.plus || p.space then width - 1 else width
    if p.zero && 1 < width then width % 256 else 1
  | none, none => 1

/-- An integer in decimal digits, grouped in threes from the right. -/
def decimal (p : Place) (n : Int) : Text :=
  let digits := atLeast p.leastDigits (Numeral.natural 10 n.natAbs)
  p.padWith ' ' (p.sign (n < 0) ++ Numeral.groupDigits digits)

/-- The text, of which only as many characters are shown as the precision says. -/
def truncate (p : Place) (t : Text) : Text :=
  match p.precision with
  | some count => Text.ofGlyphs (t.glyphs.take count)
  | none => t

/-- The text can stand between grave accents: it has none, no control character but the tabulator, and
    no broken or invisible character. -/
def fitsAccents (t : Text) : Bool :=
  t.glyphs.all fun g =>
    !(g.code = Glyph.replacement && g.bytes.length = 1) && g.code ≠ 0xfeff && g.code ≠ 0x60 &&
      g.code ≠ 0x7f && (0x20 ≤ g.code || g.code = 9)

/-- A text in quotes. -/
def quoted (p : Place) (t : Text) : Text :=
  let t := p.truncate t
  if p.sharp && fitsAccents t then p.pad ([0x60] ++ t ++ [0x60])
  else p.pad (t.quoteAs { onlyAscii := p.plus })

/-- The code point of a number, or the one that stands for none. -/
def pointOf (n : Nat) : Nat := if Text.isPoint n then n else Glyph.replacement

/-- A character in quotes. -/
def quotedPoint (p : Place) (n : Nat) : Text :=
  p.pad ((Text.encodePoint (pointOf n)).quoteAs { mark := '\'', onlyAscii := p.plus })

/-- A code point by its number, and for `sharp` the character too. -/
def pointName (p : Place) (n : Nat) : Text :=
  let digits := atLeast (max 4 (p.precision.getD 0)) (capitals (Numeral.natural 16 n))
  let shown :=
    if p.sharp && Text.isPoint n && Text.Class.graphic.contains n then
      Text.ofString " '" ++ Text.encodePoint n ++ [ascii '\'']
    else []
  p.padWith ' ' (Text.ofString "U+" ++ digits ++ shown)

/-- The bytes of a text in hexadecimal digits, as many of them as the precision says. -/
def bytes (p : Place) (t : Text) : Text :=
  let t := match p.precision with
    | some count => t.take count
    | none => t
  let mark := if p.sharp then Text.ofString "0x" else []
  let pairs := t.map fun b => Numeral.hexPadded 2 b.toNat
  if p.space then p.pad (Text.join [ascii ' '] (pairs.map (mark ++ ·)))
  else if t.isEmpty then p.pad []
  else p.pad (mark ++ pairs.flatten)

/-- An integer as a verb asks for it, if the verb fits. `bits` is its pattern as a number. -/
def ofInteger? (p : Place) (verb : Nat) (signed : Bool) (n : Int) (bits : Nat) : Option Text :=
  match Char.ofNat verb with
  | 'v' =>
    if p.literal && !signed then some ({ p with sharp := true }.integer 16 n)
    else some (if p.sharp || p.literal then p.integer 10 n else p.decimal n)
  | 'd' => some (if p.sharp || p.literal then p.integer 10 n else p.decimal n)
  | 'b' => some (p.integer 2 n)
  | 'o' => some (p.integer 8 n)
  | 'x' => some (p.integer 16 n)
  | 'X' => some (capitals (p.integer 16 n))
  | 'c' => some (p.pad (Text.encodePoint (pointOf bits)))
  | 'q' => if bits ≤ 0x10ffff then some (p.quotedPoint bits) else none
  | 'U' => some (p.pointName bits)
  | _ => none

/-- A text as a verb asks for it, if the verb fits. -/
def ofText? (p : Place) (verb : Nat) (t : Text) : Option Text :=
  match Char.ofNat verb with
  | 'v' => some (if p.literal then p.quoted t else p.pad (p.truncate t))
  | 's' => some (p.pad (p.truncate t))
  | 'x' => some (p.bytes t)
  | 'X' => some (capitals (p.bytes t))
  | 'q' => some (p.quoted t)
  | 'm' => some t
  | _ => none

/-- An argument as a verb asks for it, if the verb fits. -/
def write? (p : Place) (verb : Nat) : Argument → Option Text
  | .text t => p.ofText? verb t
  | .unsigned n => p.ofInteger? verb false n.toNat n.toNat
  | .signed n => p.ofInteger? verb true n.toInt n.toUInt64.toNat

/-- An argument with its kind before it. -/
def described (p : Place) (arg : Argument) : Text :=
  Text.ofString arg.kind ++ [ascii '='] ++ (p.write? 'v'.toNat arg).getD []

/-- What a place says that does not fit. -/
def misfit (verb : Text) (complaint : Text) : Text :=
  Text.ofString "%!" ++ verb ++ [ascii '('] ++ complaint ++ [ascii ')']

/-- An argument at a place. -/
def write (p : Place) (verb : Glyph) (arg : Argument) : Text :=
  if verb.code = 'T'.toNat then p.pad (p.truncate (Text.ofString arg.kind))
  else
    let q :=
      if verb.code = 'v'.toNat then { p with literal := p.sharp, sharp := false, plus := false } else p
    match q.write? verb.code arg with
    | some t => t
    | none => misfit verb.bytes (p.described arg)

end Place

/-! ### Reading a place -/

/-- Where the reading of a template stands: the argument that comes next, whether some place chose its
    argument itself, and of the current place whether its choice was good and has just been read. -/
structure Progress where
  next : Nat := 0
  reordered : Bool := false
  good : Bool := true
  indexed : Bool := false
deriving DecidableEq, Repr, Inhabited

/-- Widths, precisions and places of arguments stay below this. -/
def numberLimit : Nat := 1000000

/-- A number at the front of a text, if there is one. An enormous one takes the whole text with it. -/
def readNumber (t : Text) : Option Nat × Text :=
  let digits := t.takeWhile Text.isDigit
  let value := digits.foldl (fun acc b => acc * 10 + (b.toNat - 48)) 0
  if digits.isEmpty then (none, t)
  else if numberLimit < value / 10 then (none, [])
  else (some value, t.drop digits.length)

/-- The flags of a place. -/
def readFlags : Place → Text → Place × Text
  | p, [] => (p, [])
  | p, b :: rest =>
    if b = ascii '#' then readFlags { p with sharp := true } rest
    else if b = ascii '0' then readFlags { p with zero := !p.minus } rest
    else if b = ascii '+' then readFlags { p with plus := true } rest
    else if b = ascii '-' then readFlags { p with minus := true, zero := false } rest
    else if b = ascii ' ' then readFlags { p with space := true } rest
    else (p, b :: rest)

/-- The choice of an argument in brackets, counted from one. -/
def readIndex (count : Nat) (g : Progress) (t : Text) : Progress × Text :=
  match t with
  | b :: rest =>
    if b ≠ ascii '[' then ({ g with indexed := false }, t)
    else
      let inside := rest.takeWhile (· ≠ ascii ']')
      let g := { g with reordered := true }
      if rest.length ≤ inside.length || t.length < 3 then
        ({ g with good := false, indexed := false }, rest)
      else
        let after := rest.drop (inside.length + 1)
        match readNumber inside with
        | (some n, []) =>
          if 1 ≤ n && n ≤ count then ({ g with next := n - 1, indexed := true }, after)
          else ({ g with good := false, indexed := true }, after)
        | _ => ({ g with good := false, indexed := false }, after)
  | [] => ({ g with indexed := false }, t)

/-- The number that the next argument gives for a width or a precision. -/
def takeNumber (args : Array Argument) (g : Progress) : Option Int × Progress :=
  let number :=
    match args[g.next]? with
    | some (.signed n) => some n.toInt
    | some (.unsigned n) => if n.toNat ≤ Numeral.signedLimit - 1 then some (n.toNat : Int) else none
    | _ => none
  (number.filter fun n => n.natAbs ≤ numberLimit,
    if g.next < args.size then { g with next := g.next + 1 } else g)

/-- The width of a place: a number, or a star that takes it from the arguments. A negative one turns the
    field round. The text is a complaint. -/
def readWidth (args : Array Argument) (p : Place) (g : Progress) (t : Text) :
    Place × Progress × Text × Text :=
  match t with
  | b :: rest =>
    if b = ascii '*' then
      let (number, g) := takeNumber args g
      let g := { g with indexed := false }
      match number with
      | none => (p, g, Text.ofString "%!(BADWIDTH)", rest)
      | some n =>
        let p := { p with width := some n.natAbs }
        (if n < 0 then { p with minus := true, zero := false } else p, g, [], rest)
    else number
  | [] => number
where
  /-- A width in digits; none may follow the choice of an argument. -/
  number : Place × Progress × Text × Text :=
    let (width, rest) := readNumber t
    ({ p with width := width }, { g with good := g.good && !(g.indexed && width.isSome) }, [], rest)

/-- The precision of a place, after a point. -/
def readPrecision (args : Array Argument) (p : Place) (g : Progress) (t : Text) :
    Place × Progress × Text × Text :=
  match t with
  | b :: c :: more =>
    if b = ascii '.' then
      let g := { g with good := g.good && !g.indexed }
      let (g, rest) := readIndex args.size g (c :: more)
      match rest with
      | d :: tail =>
        if d = ascii '*' then
          let (number, g) := takeNumber args g
          let g := { g with indexed := false }
          match number with
          | some (.ofNat n) => ({ p with precision := some n }, g, [], tail)
          | _ => (p, g, Text.ofString "%!(BADPREC)", tail)
        else digits g rest
      | [] => digits g rest
    else (p, g, [], t)
  | _ => (p, g, [], t)
where
  /-- A precision in digits; none at all stands for zero. -/
  digits (g : Progress) (rest : Text) : Place × Progress × Text × Text :=
    let (precision, rest) := readNumber rest
    ({ p with precision := some (precision.getD 0) }, g, [], rest)

/-- A place after its percent sign: what it writes, and what follows it. -/
def fillPlace (args : Array Argument) (g : Progress) (t : Text) : Text × Progress × Text :=
  let (p, t) := readFlags {} t
  let (g, t) := readIndex args.size { g with good := true } t
  let (p, g, wide, t) := readWidth args p g t
  let (p, g, precise, t) := readPrecision args p g t
  let (g, t) := if g.indexed then (g, t) else readIndex args.size g t
  match t with
  | [] => (Text.ofString "%!(NOVERB)", g, [])
  | b :: rest =>
    let verb := Glyph.first b rest
    let after := t.drop verb.bytes.length
    if b = ascii '%' then ([ascii '%'], g, after)
    else if !g.good then (Place.misfit verb.bytes (Text.ofString "BADINDEX"), g, after)
    else
      match args[g.next]? with
      | none => (Place.misfit verb.bytes (Text.ofString "MISSING"), g, after)
      | some arg =>
        let complaint := if precise.isEmpty then wide else precise
        (complaint ++ p.write verb arg, { g with next := g.next + 1 }, after)

/-- Arguments that no place has taken, if some other has been, and no place has chosen its own. -/
def leftOver (args : Array Argument) (g : Progress) : Text :=
  if g.reordered || g.next = 0 || args.size ≤ g.next then []
  else
    let left := (args.toList.drop g.next).map (Place.described {})
    Place.misfit [] (Text.ofString "EXTRA " ++ Text.join (Text.ofString ", ") left)

/-- Fill the places of a template from the left. Every step takes a byte of it, so that `fuel` bytes
    need no more than `fuel` steps. -/
def fill (args : Array Argument) : (fuel : Nat) → Progress → Text → Text
  | 0, _, t => t
  | _ + 1, g, [] => leftOver args g
  | fuel + 1, g, b :: rest =>
    if b = ascii '%' then
      let (written, g, after) := fillPlace args g rest
      written ++ fill args fuel g after
    else b :: fill args fuel g rest

/-- The template with its places filled by the arguments in order. -/
def format (template : Text) (args : List Argument) : Text :=
  fill args.toArray (template.length + 1) {} template

end Message

end VectorRisc
