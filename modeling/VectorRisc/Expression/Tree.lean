/-
Module: VectorRisc.Expression.Tree
Layer: Expression
Purpose: The grammar of compile-time expressions. From the loosest to the tightest binding: a choice
  `a if c else b`; `or`; `and`; `not`; comparisons, which do not chain; `|`; `^`; `&`; shifts; sums;
  products; signs; and indexing, slices and calls behind a primary expression. Other statements may
  follow the expression, after a semicolon or on a new line.
Imports: VectorRisc.Expression.Token
Trusted boundary: this is a part of the grammar of the language that a host interprets
  (`VectorRisc.Command.Host`): comprehensions, dictionaries, functions and attributes are left out
Main exports: Expression.Tree, Expression.BinaryOp, Expression.Statement, Expression.Program,
  Expression.program?
Open obligations: none
-/
import VectorRisc.Expression.Token

namespace VectorRisc

namespace Expression

/-- An operator between two values that are both computed. -/
inductive BinaryOp where
  | eq
  | ne
  | lt
  | gt
  | le
  | ge
  | isIn
  | notIn
  | bitOr
  | bitXor
  | bitAnd
  | shiftLeft
  | shiftRight
  | add
  | sub
  | mul
  | mod
  | div
  | floorDiv
deriving DecidableEq, Repr, Inhabited

/-- An operator before a value. -/
inductive UnaryOp where
  | plus
  | minus
  | complement
deriving DecidableEq, Repr, Inhabited

/-- An expression. `named` and `spread` are arguments of a call only, and `absent` is a part of a slice
    that is left out. -/
inductive Tree where
  | int (value : Nat)
  | float (pattern : Nat)
  | str (value : Text)
  | bytes (value : Text)
  | name (text : Text)
  | absent
  | list (items : List Tree)
  | tuple (items : List Tree)
  | unary (op : UnaryOp) (x : Tree)
  | binary (op : BinaryOp) (x y : Tree)
  | not (x : Tree)
  | and (x y : Tree)
  | or (x y : Tree)
  | choice (yes condition no : Tree)
  | index (x i : Tree)
  | slice (x first last step : Tree)
  | call (f : Tree) (args : List Tree)
  | named (name : Text) (x : Tree)
  | spread (x : Tree)
deriving Repr, Inhabited

/-- A statement. -/
inductive Statement where
  | assign (name : Text) (x : Tree)
  | value (x : Tree)
  | pass
deriving Repr, Inhabited

/-- An expression and the statements that follow it. -/
structure Program where
  result : Tree
  others : List Statement
deriving Repr, Inhabited

/-- The tokens still to be read. -/
abbrev Rest := List Token

/-- The token is the given keyword or operator. -/
def Token.is (t : Token) (text : String) : Bool := t = .sign (Text.ofString text)

/-- The tightness of the loosest binary operators, `or`. -/
def precOr : Nat := 0

/-- The tightness of `and`. -/
def precAnd : Nat := 1

/-- The tightness of `not`. -/
def precNot : Nat := 2

/-- The tightness of comparisons. -/
def precCompare : Nat := 3

/-- Tighter than every binary operator. -/
def precPrimary : Nat := 10

/-- What joins two operands: an ordinary operator, or one that may leave its right side alone. -/
inductive Joint where
  | plain (op : BinaryOp)
  | and
  | or
deriving DecidableEq, Repr, Inhabited

/-- The binary operators with their tightness. -/
def joints : List (Text × Nat × Joint) :=
  [("or", precOr, .or), ("and", precAnd, .and),
    ("==", precCompare, .plain .eq), ("!=", precCompare, .plain .ne),
    ("<", precCompare, .plain .lt), (">", precCompare, .plain .gt),
    ("<=", precCompare, .plain .le), (">=", precCompare, .plain .ge),
    ("in", precCompare, .plain .isIn),
    ("|", 4, .plain .bitOr), ("^", 5, .plain .bitXor), ("&", 6, .plain .bitAnd),
    ("<<", 7, .plain .shiftLeft), (">>", 7, .plain .shiftRight),
    ("-", 8, .plain .sub), ("+", 8, .plain .add),
    ("*", 9, .plain .mul), ("%", 9, .plain .mod), ("/", 9, .plain .div),
    ("//", 9, .plain .floorDiv)].map
    fun (text, joint) => (Text.ofString text, joint)

/-- The binary operator at the front with its tightness; the outer option refuses a `not` that no `in`
    follows. -/
def joint? : Rest → Option (Option (Nat × Joint) × Rest)
  | .sign text :: rest =>
    if text = Text.ofString "not" then
      match rest with
      | u :: more => if u.is "in" then some (some (precCompare, .plain .notIn), more) else none
      | [] => none
    else
      match joints.lookup text with
      | some joint => some (some joint, rest)
      | none => some (none, .sign text :: rest)
  | rest => some (none, rest)

/-- The tree of two operands and what joins them. -/
def Joint.tree : Joint → Tree → Tree → Tree
  | .plain op, x, y => .binary op x y
  | .and, x, y => .and x y
  | .or, x, y => .or x y

/-- The sign at the front. -/
def unary? (t : Token) : Option UnaryOp :=
  if t.is "-" then some .minus
  else if t.is "+" then some .plus
  else if t.is "~" then some .complement
  else none

/-- The token after which a list of expressions has ended. -/
def endsList : Rest → Bool
  | [] => true
  | t :: _ => t = .newline || t.is ")" || t.is "]" || t.is "\x7d" || t.is "=" || t.is ";"

/-! ### Parts

Every reader below takes at least one token for each step, so that `fuel` tokens need no more than
`fuel` steps. -/

/-- The reader of one expression, which the readers of its parts go back to. -/
abbrev Reader := Rest → Option (Tree × Rest)

/-- Items between commas up to a closing bracket, which may follow a last comma. -/
def readItems (item : Reader) (close : String) : (fuel : Nat) → Rest → Option (List Tree × Rest)
  | 0, _ => none
  | _ + 1, [] => none
  | fuel + 1, t :: rest =>
    if t.is close then some ([], rest)
    else
      match item (t :: rest) with
      | some (x, u :: more) =>
        if u.is "," then (readItems item close fuel more).map fun (xs, r) => (x :: xs, r)
        else if u.is close then some ([x], more)
        else none
      | _ => none

/-- The rest of an unparenthesised tuple whose first items have been read, the last one first: after
    each comma another item must follow. -/
def readTuple (test : Reader) : (fuel : Nat) → List Tree → Reader
  | 0, _, _ => none
  | fuel + 1, items, rest =>
    match rest with
    | t :: more =>
      if t.is "," then
        if endsList more then none
        else
          match test more with
          | none => none
          | some (x, r) => readTuple test fuel (x :: items) r
      else some (.tuple items.reverse, rest)
    | [] => some (.tuple items.reverse, rest)

/-- An expression, or a tuple without parentheses and without a comma at its end. -/
def readExpression (test : Reader) (fuel : Nat) : Reader := fun rest =>
  match test rest with
  | none => none
  | some (x, after) =>
    if after.head?.any fun t => t.is "," then readTuple test fuel [x] after else some (x, after)

/-- A primary expression: a literal, a name, a bracketed list, or an expression or tuple in
    parentheses. -/
def readPrimary (test : Reader) (fuel : Nat) : Reader
  | .int v :: rest => some (.int v, rest)
  | .float p :: rest => some (.float p, rest)
  | .str v :: rest => some (.str v, rest)
  | .bytes v :: rest => some (.bytes v, rest)
  | .name n :: rest => some (.name n, rest)
  | t :: rest =>
    if t.is "[" then (readItems test "]" fuel rest).map fun (xs, r) => (.list xs, r)
    else if t.is "(" then
      if rest.head?.any fun u => u.is ")" then some (.tuple [], rest.tail)
      else
        match test rest with
        | some (x, u :: more) =>
          if u.is ")" then some (x, more)
          else if u.is "," then
            (readItems test ")" fuel more).map fun (xs, r) => (.tuple (x :: xs), r)
          else none
        | _ => none
    else none
  | [] => none

/-! ### Arguments -/

/-- An argument of a call: an expression, a name and its expression, or a starred sequence. -/
def readArgument (test : Reader) : Reader := fun rest =>
  if rest.head?.any fun t => t.is "*" then (test rest.tail).map fun (x, r) => (.spread x, r)
  else
    match test rest with
    | some (x, t :: more) =>
      if t.is "=" then
        match x with
        | .name n => (test more).map fun (y, r) => (.named n y, r)
        | _ => none
      else some (x, t :: more)
    | other => other

/-- The most arguments by place, and the most by name, that a call can have. -/
def argumentLimit : Nat := 255

/-- The name of an argument by name. -/
def Tree.argumentName? : Tree → Option Text
  | .named n _ => some n
  | _ => none

/-- The argument is a starred sequence. -/
def Tree.isSpread : Tree → Bool
  | .spread _ => true
  | _ => false

/-- Arguments stand in order: by place, then by name without repetition, and then one starred
    sequence at most. -/
def argumentsFit (args : List Tree) : Bool :=
  let others := args.dropWhile fun x => x.argumentName?.isNone && !x.isSpread
  let starred := others.dropWhile fun x => x.argumentName?.isSome
  let names := others.filterMap Tree.argumentName?
  args.length - others.length ≤ argumentLimit && names.length ≤ argumentLimit && names.Nodup &&
    match starred with
    | [] => true
    | [x] => x.isSpread
    | _ => false

/-! ### What stands behind an expression -/

/-- A part of a slice, which is absent if a colon or the closing bracket stands in its place. -/
def readPart (test : Reader) : Reader := fun rest =>
  if rest.head?.any fun t => t.is ":" || t.is "]" then some (.absent, rest) else test rest

/-- A part of a slice behind a colon, if there is one. -/
def readColonPart (test : Reader) : Reader := fun rest =>
  if rest.head?.any fun t => t.is ":" then readPart test rest.tail else some (.absent, rest)

/-- The rest of an index or a slice of `x` behind its opening bracket. -/
def readIndex (test : Reader) (fuel : Nat) (x : Tree) : Reader := fun rest =>
  let first :=
    if rest.head?.any fun t => t.is ":" then some (.absent, rest) else readExpression test fuel rest
  match first with
  | some (i, t :: more) =>
    if t.is "]" then some (.index x i, more)
    else
      match readColonPart test (t :: more) with
      | none => none
      | some (j, after) =>
        match readColonPart test after with
        | some (step, u :: r) => if u.is "]" then some (.slice x i j step, r) else none
        | _ => none
  | _ => none

/-- Indexing, slices and calls behind an expression. -/
def readSuffixes (test : Reader) : (fuel : Nat) → Tree → Reader
  | 0, _, _ => none
  | fuel + 1, x, rest =>
    match rest with
    | t :: more =>
      if t.is "[" then
        match readIndex test fuel x more with
        | some (y, after) => readSuffixes test fuel y after
        | none => none
      else if t.is "(" then
        match readItems (readArgument test) ")" fuel more with
        | some (args, after) =>
          if argumentsFit args then readSuffixes test fuel (.call x args) after else none
        | none => none
      else some (x, rest)
    | [] => some (x, rest)

/-- A signed primary expression with what stands behind it; a sign binds looser than that. -/
def readSigned (test : Reader) : (fuel : Nat) → Reader
  | 0, _ => none
  | _ + 1, [] => none
  | fuel + 1, t :: rest =>
    match unary? t with
    | some op => (readSigned test fuel rest).map fun (x, r) => (.unary op x, r)
    | none =>
      match readPrimary test fuel (t :: rest) with
      | none => none
      | some (x, r) => readSuffixes test fuel x r

/-! ### Operators -/

mutual

/-- An expression that binds at least as tightly as `prec`. -/
def readAt (test : Reader) : (fuel : Nat) → (prec : Nat) → Reader
  | 0, _, _ => none
  | fuel + 1, prec, rest =>
    if precPrimary ≤ prec then readSigned test fuel rest
    else if prec = precNot && rest.head?.any fun t => t.is "not" then
      (readAt test fuel prec rest.tail).map fun (x, r) => (.not x, r)
    else
      match readAt test fuel (prec + 1) rest with
      | none => none
      | some (x, r) => readJoints test fuel prec true x r

/-- The operators of one tightness and their right sides; a comparison has no other beside it. -/
def readJoints (test : Reader) : (fuel : Nat) → (prec : Nat) → (first : Bool) → Tree → Reader
  | 0, _, _, _, _ => none
  | fuel + 1, prec, first, x, rest =>
    match joint? rest with
    | none => none
    | some (none, _) => some (x, rest)
    | some (some (opPrec, joint), more) =>
      if opPrec < prec then some (x, rest)
      else if !first && opPrec = precCompare then none
      else
        match readAt test fuel (opPrec + 1) more with
        | none => none
        | some (y, r) => readJoints test fuel prec false (joint.tree x y) r

end

/-- Steps that reading the operators of `n` tokens can take: each token is looked at once on each
    level of tightness. -/
def stepsFor (n : Nat) : Nat := 16 * (n + 2)

/-- An expression with an optional choice behind it. -/
def readTest : (fuel : Nat) → Reader
  | 0, _ => none
  | fuel + 1, rest =>
    let test := readTest fuel
    let operators := readAt test (stepsFor fuel) precOr
    match operators rest with
    | none => none
    | some (x, after) =>
      if after.head?.any fun t => t.is "if" then
        match operators after.tail with
        | some (condition, u :: more) =>
          if u.is "else" then (test more).map fun (no, r) => (.choice x condition no, r) else none
        | _ => none
      else some (x, after)

/-! ### Programs -/

/-- A statement: nothing to do, an expression, or a name that takes the value of one. -/
def readStatement (expression : Reader) (rest : Rest) : Option (Statement × Rest) :=
  if rest.head?.any fun t => t.is "pass" then some (.pass, rest.tail)
  else
    match expression rest with
    | none => none
    | some (x, after) =>
      if after.head?.any fun t => t.is "=" then
        match x with
        | .name n => (expression after.tail).map fun (y, r) => (.assign n y, r)
        | _ => none
      else some (.value x, after)

/-- The statements behind a first one. A semicolon or a new line stands between two of them and may
    stand behind the last. -/
def readStatements (expression : Reader) : (fuel : Nat) → Rest → Option (List Statement)
  | _, [] => some []
  | 0, _ :: _ => none
  | fuel + 1, t :: rest =>
    let following :=
      if t = .newline then some (rest.dropWhile (· = .newline))
      else if t.is ";" then some rest
      else none
    match following with
    | none => none
    | some [] => some []
    | some (u :: more) =>
      if u = .newline then readStatements expression fuel (u :: more)
      else
        match readStatement expression (u :: more) with
        | none => none
        | some (statement, r) => (readStatements expression fuel r).map (statement :: ·)

/-- The program of a whole text. -/
def program? (tokens : List Token) : Option Program :=
  let fuel := tokens.length + 1
  let expression := readExpression (readTest fuel) fuel
  match expression tokens with
  | none => none
  | some (result, rest) => (readStatements expression fuel rest).map fun others => ⟨result, others⟩

end Expression

end VectorRisc
