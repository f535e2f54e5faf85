/-
Module: VectorRisc.Expression.Eval
Layer: Expression
Purpose: Evaluating compile-time expressions. Every name of an expression has to be known, also in parts
  that are not computed; a name that is given a value is known everywhere but has none before that.
Imports: VectorRisc.Expression.Operator
Trusted boundary: a part of the language that a host interprets (`VectorRisc.Command.Host`): what its other
  functions, methods and forms of expression come to is not defined here
Main exports: Expression.Scope, Expression.Tree.eval, Expression.Program.run, Expression.evaluate
Open obligations: none
-/
import VectorRisc.Expression.Operator

namespace VectorRisc

namespace Expression

/-- The values that an expression may name. -/
abbrev Scope := Text → Option Value

/-- The name that the result is given. -/
def resultName : Text := Text.ofString "rc"

/-- Functions that have a name but cannot be called. -/
def otherFunctions : List Text :=
  ["all", "any", "bytes", "chr", "dict", "dir", "enumerate", "fail", "getattr", "hasattr", "hash",
    "list", "print", "range", "repr", "reversed", "sorted", "str", "tuple", "type", "zip"].map
    Text.ofString

/-- The values that every expression knows. -/
def standardNames : List (Text × Value) :=
  [("None", .none), ("True", .bool true), ("False", .bool false), ("len", .function .len),
    ("abs", .function .abs), ("min", .function .min), ("max", .function .max),
    ("int", .function .int), ("float", .function .float), ("ord", .function .ord),
    ("bool", .function .bool)].map (fun (name, v) => (Text.ofString name, v)) ++
    otherFunctions.map fun name => (name, .function (.other name))

/-- What names stand for while the statements of a program run: `assigned` are the names that some
    statement gives a value to, and `values` those that have one already. -/
structure Environment where
  scope : Scope
  assigned : List Text
  values : List (Text × Value)

namespace Environment

/-- The value of a name: a name that some statement gives a value to has that value only, and the scope
    hides what every expression knows. -/
def valueOf? (env : Environment) (name : Text) : Option Value :=
  if env.assigned.contains name then env.values.lookup name
  else
    match env.scope name with
    | some v => some v
    | none => standardNames.lookup name

/-- The name may stand in an expression. -/
def knows (env : Environment) (name : Text) : Bool :=
  env.assigned.contains name || (env.valueOf? name).isSome

/-- The environment after a name has been given a value. -/
def assign (env : Environment) (name : Text) (v : Value) : Environment :=
  { env with values := (name, v) :: env.values }

end Environment

mutual

/-- Every name in an expression is known. -/
def Tree.resolved (env : Environment) : Tree → Bool
  | .int _ | .float _ | .str _ | .bytes _ | .absent => true
  | .name n => env.knows n
  | .list items => resolvedAll env items
  | .tuple items => resolvedAll env items
  | .unary _ x => x.resolved env
  | .binary _ x y => x.resolved env && y.resolved env
  | .not x => x.resolved env
  | .and x y => x.resolved env && y.resolved env
  | .or x y => x.resolved env && y.resolved env
  | .choice a c b => a.resolved env && c.resolved env && b.resolved env
  | .index x i => x.resolved env && i.resolved env
  | .slice x i j k => x.resolved env && i.resolved env && j.resolved env && k.resolved env
  | .call f args => f.resolved env && resolvedAll env args
  | .named _ x => x.resolved env
  | .spread x => x.resolved env

/-- Every name in some expressions is known. -/
def resolvedAll (env : Environment) : List Tree → Bool
  | [] => true
  | x :: xs => x.resolved env && resolvedAll env xs

end

/-! ### Functions -/

/-- The arguments of a call, by place and by name. -/
structure Arguments where
  placed : List Value
  named : List (Text × Value)
deriving Inhabited

/-- The items of a list or a tuple. -/
def Value.items? : Value → Option (List Value)
  | .list items => some items
  | .tuple items => some items
  | _ => Option.none

/-- The arguments of a call from their expressions and values. A starred sequence stands last and gives
    arguments by place. -/
def gather? : List Tree → List Value → Option Arguments
  | x :: xs, v :: vs =>
    match gather? xs vs with
    | none => none
    | some rest =>
      match x with
      | .named n _ => some { rest with named := (n, v) :: rest.named }
      | .spread _ => v.items?.map fun items => { rest with placed := items ++ rest.placed }
      | _ => some { rest with placed := v :: rest.placed }
  | _, _ => some ⟨[], []⟩

/-- The least or the greatest of some values by their keys: a later one wins only if its key is strictly
    better. -/
def extreme? (op : BinaryOp) (key : Value → Option Value) :
    (best bestKey : Value) → List Value → Option Value
  | best, _, [] => some best
  | best, bestKey, v :: vs =>
    match key v with
    | none => none
    | some k =>
      match compare? op k bestKey with
      | none => none
      | some true => extreme? op key v k vs
      | some false => extreme? op key best bestKey vs

/-- The least or the greatest of several arguments, or of the items of a single one. -/
def extremeOf? (op : BinaryOp) (key : Value → Option Value) (args : List Value) : Option Value :=
  let candidates := match args with
    | [v] => v.items?.getD []
    | vs => vs
  match candidates with
  | [] => none
  | v :: vs => (key v).bind fun k => extreme? op key v k vs

/-- The value of digits in a base up to 36; there has to be one at least. -/
def digitsIn? (base : Nat) (t : Text) : Option Nat :=
  if t.isEmpty then none
  else
    t.foldl (fun acc b => do
      let value ← acc
      let d ← Numeral.digitValue? b
      if d < base then some (value * base + d) else none) (some 0)

/-- An integer written in a base, with an optional sign and an optional mark of that base. Base zero
    takes the base from the mark, and then leading zeros stand only before zeros. -/
def integerIn? (base : Nat) (t : Text) : Option Int :=
  let negative := t.head? = some (ascii '-')
  let body := if negative || t.head? = some (ascii '+') then t.tail else t
  let mark := match body with
    | z :: m :: _ :: _ => if z = ascii '0' then Numeral.markBase? m else none
    | _ => none
  let magnitude :=
    match mark with
    | some b =>
      if base = 0 || b = base then digitsIn? b (body.drop 2)
      else digitsIn? (if base = 0 then 10 else base) body
    | none =>
      if base = 0 && 1 < body.length && body.head? = some (ascii '0') then
        if body.all (· = ascii '0') then some 0 else none
      else digitsIn? (if base = 0 then 10 else base) body
  magnitude.map fun n => if negative then -(n : Int) else n

/-- The float that a text stands for; a sign may also stand before `nan`. -/
def floatIn? (t : Text) : Option Float :=
  let body := if t.head? = some (ascii '-') || t.head? = some (ascii '+') then t.tail else t
  if Ieee.Format.sameLetters body "nan" then some (floatOf Ieee.double.nan)
  else
    match Ieee.double.read t with
    | .ok pattern => some (floatOf pattern)
    | .error _ => none

/-- A value as an integer; a text is read in a base, which only a text can have. -/
def integerOf? : (v : Value) → (base : Option Value) → Option Value
  | .str t, none => (integerIn? 10 t).map Value.int
  | .str t, some (.int base) =>
    if base = 0 || (2 ≤ base && base ≤ 36) then (integerIn? base.toNat t).map Value.int else none
  | .bool b, none => some (.int b.toNat)
  | v, none => v.toInt?.map Value.int
  | _, some _ => none

/-- The value of a function on arguments by place, if it is defined. -/
def Function.applyPlaced (f : Function) (args : List Value) : Option Value :=
  match f, args with
  | .len, [.str t] => some (.int t.length)
  | .len, [.bytes t] => some (.int t.length)
  | .len, [.list items] => some (.int items.length)
  | .len, [.tuple items] => some (.int items.length)
  | .abs, [.int n] => some (.int n.natAbs)
  | .abs, [.float x] => some (.float x.abs)
  | .min, _ => extremeOf? .lt some args
  | .max, _ => extremeOf? .gt some args
  | .int, [v] => integerOf? v none
  | .int, [v, base] => integerOf? v (some base)
  | .float, [] => some (.float 0)
  | .float, [.bool b] => some (.float (if b then 1 else 0))
  | .float, [.int n] => (toFloat? n).map Value.float
  | .float, [.float x] => some (.float x)
  | .float, [.str t] => (floatIn? t).map Value.float
  | .ord, [.str t] =>
    match t.glyphs with
    | [g] => some (.int g.code)
    | _ => none
  | .ord, [.bytes [b]] => some (.int b.toNat)
  | .bool, [] => some (.bool false)
  | .bool, [v] => some (.bool v.truth)
  | _, _ => none

/-- The value of a function on its arguments, if it is defined. An integer takes its text and its base
    by name too, and an extreme the function that gives the keys. -/
def Function.apply (f : Function) (args : Arguments) : Option Value :=
  match f, args.placed, args.named with
  | _, placed, [] => f.applyPlaced placed
  | .min, placed, [(name, .function g)] =>
    if name = keyName then extremeOf? .lt (fun v => g.applyPlaced [v]) placed else none
  | .max, placed, [(name, .function g)] =>
    if name = keyName then extremeOf? .gt (fun v => g.applyPlaced [v]) placed else none
  | .int, [v], [(name, base)] => if name = baseName then integerOf? v (some base) else none
  | .int, [], [(name, v)] => if name = textName then integerOf? v none else none
  | .int, [], [(name, v), (second, w)] =>
    if name = textName && second = baseName then integerOf? v (some w)
    else if name = baseName && second = textName then integerOf? w (some v)
    else none
  | _, _, _ => none
where
  /-- The argument that gives the keys of an extreme. -/
  keyName : Text := Text.ofString "key"
  /-- The argument that an integer is made from. -/
  textName : Text := Text.ofString "x"
  /-- The argument that gives the base of an integer's text. -/
  baseName : Text := Text.ofString "base"

/-! ### Trees -/

mutual

/-- The value of an expression, if every operation in it that is carried out is defined. -/
def Tree.eval (env : Environment) : Tree → Option Value
  | .int n => some (.int n)
  | .float p => some (.float (floatOf p))
  | .str t => some (.str t)
  | .bytes t => some (.bytes t)
  | .name n => env.valueOf? n
  | .absent => some .none
  | .list items => (evalAll env items).map Value.list
  | .tuple items => (evalAll env items).map Value.tuple
  | .unary op x =>
    match x.eval env with
    | none => none
    | some v => unary op v
  | .binary op x y =>
    match x.eval env with
    | none => none
    | some v =>
      match y.eval env with
      | none => none
      | some w => binary? op v w
  | .not x =>
    match x.eval env with
    | none => none
    | some v => some (.bool !v.truth)
  | .and x y =>
    match x.eval env with
    | none => none
    | some v => if v.truth then y.eval env else some v
  | .or x y =>
    match x.eval env with
    | none => none
    | some v => if v.truth then some v else y.eval env
  | .choice a c b =>
    match c.eval env with
    | none => none
    | some v => if v.truth then a.eval env else b.eval env
  | .index x i =>
    match x.eval env, i.eval env with
    | some v, some w => index? v w
    | _, _ => none
  | .slice x i j k =>
    match x.eval env, i.eval env, j.eval env, k.eval env with
    | some v, some first, some last, some step => slice? v first last step
    | _, _, _, _ => none
  | .call f args =>
    match f.eval env, evalAll env args with
    | some (.function g), some vs => (gather? args vs).bind g.apply
    | _, _ => none
  | .named _ x => x.eval env
  | .spread x => x.eval env

/-- The values of some expressions, in order. -/
def evalAll (env : Environment) : List Tree → Option (List Value)
  | [] => some []
  | x :: xs =>
    match x.eval env with
    | none => none
    | some v => (evalAll env xs).map (v :: ·)

end

/-! ### Programs -/

namespace Program

/-- The statements of a program: the first one gives the result its name. -/
def statements (p : Program) : List Statement := .assign resultName p.result :: p.others

/-- The names that statements give a value to. -/
def assigned (p : Program) : List Text :=
  p.statements.filterMap fun
    | .assign name _ => some name
    | _ => none

end Program

/-- Every name in a statement is known. -/
def Statement.resolved (env : Environment) : Statement → Bool
  | .assign _ x => x.resolved env
  | .value x => x.resolved env
  | .pass => true

/-- The environment after a statement, if the expression in it has a value. -/
def Statement.run (env : Environment) : Statement → Option Environment
  | .assign name x => (x.eval env).map (env.assign name)
  | .value x => (x.eval env).map fun _ => env
  | .pass => some env

/-- The value of the result after all statements of a program. A name is given a value only once, and
    every name has to be known, also where it is not used. -/
def Program.run (p : Program) (scope : Scope) : Option Value :=
  let env : Environment := ⟨scope, p.assigned, []⟩
  if !p.assigned.Nodup || !p.statements.all (Statement.resolved env) then none
  else (p.statements.foldlM Statement.run env).bind fun after => after.values.lookup resultName

/-- Evaluate the text of an expression: none if it is no expression, or its value is not defined. -/
def evaluate (scope : Scope) (t : Text) : Option Value :=
  ((tokens? t).bind program?).bind fun program => program.run scope

end Expression

end VectorRisc
