/-
Module: VectorRisc.Assembler.Source
Layer: Assembler
Purpose: What happens to the text of a source line before it is understood: comments are cut off,
  expressions in `$(…)` give way to their values, names of equates to theirs, and labels are taken from
  the front. Quoted text is left alone, except that expressions in it are evaluated too.
Imports: VectorRisc.Assembler.Error, VectorRisc.Assembler.Host
Trusted boundary: none
Main exports: Assembler.Equates, Assembler.uncommented, Assembler.replaceExpressions, Assembler.substitute,
  Assembler.cutLabel, Assembler.leadingLabels
Open obligations: none
-/
import VectorRisc.Assembler.Error
import VectorRisc.Assembler.Host

namespace VectorRisc

namespace Assembler

/-- The text before the first unquoted `#`. -/
def uncommented (t : Text) : Text := t.beforeUnquoted (ascii '#')

/-- A source line as it is assembled and shown in messages: without its comment, and trimmed. -/
def clean (t : Text) : Text := (uncommented t).trim

/-! ### Equates -/

/-- Names and the texts they stand for; no name occurs twice. -/
abbrev Equates := List (Text × Text)

namespace Equates

/-- The text of a name. -/
def get? (equates : Equates) (name : Text) : Option Text := equates.lookup name

/-- The equates with another text for a name. -/
def set (equates : Equates) (name value : Text) : Equates :=
  match equates with
  | [] => [(name, value)]
  | (n, v) :: rest => if n = name then (n, value) :: rest else (n, v) :: set rest name value

/-- The number that a name stands for: an integer, or else a float. -/
def number? (equates : Equates) (name : Text) : Option Value :=
  match equates.get? name with
  | none => none
  | some text =>
    match Numeral.number? text with
    | some v => some (.int v.toInt)
    | none =>
      match Ieee.double.read text with
      | .ok pattern => some (.float pattern)
      | .error _ => none

end Equates

/-! ### Expressions -/

/-- The text before and after the first `$(`. The bytes passed are held in reverse. -/
def cutOpening? : (held : Text) → Text → Option (Text × Text)
  | held, d :: p :: rest =>
    if d = ascii '$' && p = ascii '(' then some (held.reverse, rest)
    else cutOpening? (d :: held) (p :: rest)
  | _, _ => none

/-- The text before and after the parenthesis that closes `depth` open ones. -/
def cutClosing? : (depth : Nat) → (held : Text) → Text → Option (Text × Text)
  | _, _, [] => none
  | depth, held, b :: rest =>
    if b = ascii '(' then cutClosing? (depth + 1) (b :: held) rest
    else if b = ascii ')' then
      if depth ≤ 1 then some (held.reverse, rest) else cutClosing? (depth - 1) (b :: held) rest
    else cutClosing? depth (b :: held) rest

/-- Replace expressions one after the other, always the first one left, at most `fuel` of them. -/
def replaceExpressionsFrom (eval : Text → Except Error Text) : (fuel : Nat) → Text → Except Error Text
  | 0, line => .ok line
  | fuel + 1, line =>
    match cutOpening? [] line with
    | none => .ok line
    | some (before, after) =>
      match cutClosing? 1 [] after with
      | none => .error (.expression after)
      | some (inside, rest) =>
        match eval inside with
        | .error e => .error e
        | .ok value => replaceExpressionsFrom eval fuel (before ++ value ++ rest)

/-- The line with every `$(…)` replaced by its value. A line has no more expressions than bytes, and a
    value brings no new one. -/
def replaceExpressions (eval : Text → Except Error Text) (line : Text) : Except Error Text :=
  replaceExpressionsFrom eval line.length line

/-- The value of an expression over the numeric equates, as text. -/
def evalExpression (host : Host) (equates : Equates) (text : Text) : Except Error Text :=
  match host.result equates.number? text with
  | .error cause => .error (.evaluation cause)
  | .ok result =>
    match result.bind Value.text? with
    | some value => .ok value
    | none => .error (.expression text)

/-! ### Names -/

/-- Replace names from a place on. A name starts with a letter or an underscore and goes on like a label.
    `q` is where the scan stands with regard to quotes, `joined` says that the byte before belongs to a
    name or is a percent sign, and `skip` bytes belong to a name already handled. -/
def substituteFrom (value? : Text → Option Text) :
    (q : Quote) → (joined : Bool) → (skip : Nat) → Text → Text
  | _, _, _, [] => []
  | q, joined, skip + 1, _ :: rest => substituteFrom value? q joined skip rest
  | .outside, joined, 0, b :: rest =>
    if Text.isNameStart b && !joined then
      let name := b :: rest.takeWhile Text.isLabelByte
      (value? name).getD name ++ substituteFrom value? .outside true (name.length - 1) rest
    else
      b :: substituteFrom value? (Quote.outside.step b) (Text.isLabelByte b || b = ascii '%') 0 rest
  | q, _, 0, b :: rest =>
    b :: substituteFrom value? (q.step b) (Text.isLabelByte b || b = ascii '%') 0 rest

/-- The text with every whole name that has a value replaced by it. Quoted text and the names behind a
    percent sign stay. -/
def substitute (value? : Text → Option Text) (t : Text) : Text :=
  substituteFrom value? .outside false 0 t

/-! ### Labels -/

/-- A label at the front of a line. -/
structure Mark where
  name : Text
  global : Bool
deriving DecidableEq, Repr, Inhabited

/-- The name behind `.global`, if the text starts with that word. -/
def globalName? (head : Text) : Option Text :=
  match Text.after? (Text.ofString ".global") head with
  | none => none
  | some rest =>
    match rest.head? with
    | none => some []
    | some b => if b = ascii ' ' || b = ascii '\t' then some rest.trim else none

/-- The label before the first unquoted colon of a line, and what follows it. None if there is no such
    colon; what stands before it has to be a label. -/
def cutLabel (line : Text) : Except Error (Option (Mark × Text)) :=
  match line.cutUnquoted? (ascii ':') with
  | none => .ok none
  | some (before, after) =>
    let head := before.trim
    let mark : Mark := match globalName? head with
      | some name => ⟨name, true⟩
      | none => ⟨head, false⟩
    if mark.name.isLabel then .ok (some (mark, after.trim)) else .error (.labelInvalid mark.name)

/-- The labels at the front of a line, and the rest of the line or what is wrong with the next label.
    Each label is followed by a colon, so that `fuel` bytes need no more than `fuel` steps. -/
def leadingLabelsFrom : (fuel : Nat) → Text → List Mark × Except Error Text
  | 0, line => ([], .ok line)
  | fuel + 1, line =>
    match cutLabel line with
    | .error e => ([], .error e)
    | .ok none => ([], .ok line)
    | .ok (some (mark, rest)) =>
      let (marks, result) := leadingLabelsFrom fuel rest
      (mark :: marks, result)

/-- The labels at the front of a line, and the rest of it. -/
def leadingLabels (line : Text) : List Mark × Except Error Text :=
  leadingLabelsFrom (line.length + 1) line

/-- Every label that the lines of a source start with, in macro bodies too. -/
def labelsOf (source : List Text) : List Text :=
  source.flatMap fun t => (leadingLabels (clean t)).1.map Mark.name

end Assembler

end VectorRisc
