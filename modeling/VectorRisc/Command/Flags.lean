/-
Module: VectorRisc.Command.Flags
Layer: Command
Purpose: Flags of a command line. A flag is a dash or two and a name, with its value after an equals sign
  or in the next argument; a switch takes a value only after an equals sign. Flags end at the first
  other argument, or after two lone dashes.
Imports: VectorRisc.Text.Escape
Trusted boundary: none
Main exports: Flags.Spec, Flags.Error, Flags.parse, Flags.usage
Open obligations: none
-/
import VectorRisc.Text.Escape

namespace VectorRisc

namespace Flags

/-- A flag that a command knows. -/
structure Spec where
  name : Text
  /-- The flag is on or off. -/
  isSwitch : Bool
  help : String
  /-- What it is without being given. -/
  default : Text := []
deriving DecidableEq, Repr, Inhabited

/-- Why a command line cannot be read. -/
inductive Error where
  | malformed (argument : Text)
  | unknown (name : Text)
  | noValue (name : Text)
  | notSwitch (value name : Text)
  /-- The user asks for help. -/
  | help
deriving DecidableEq, Repr, Inhabited

/-- The text of a command line error. -/
def Error.message : Error → String
  | .malformed argument => s!"bad flag syntax: {argument.display}"
  | .unknown name => s!"flag provided but not defined: -{name.display}"
  | .noValue name => s!"flag needs an argument: -{name.display}"
  | .notSwitch value name =>
    s!"invalid boolean value {value.quote.display} for -{name.display}: parse error"
  | .help => ""

/-- The texts that stand for on and off. -/
def switchValue? (t : Text) : Option Bool :=
  if ["1", "t", "T", "TRUE", "true", "True"].any fun w => t = Text.ofString w then some true
  else if ["0", "f", "F", "FALSE", "false", "False"].any fun w => t = Text.ofString w then some false
  else none

/-- The text of a switch that is on. -/
def on : Text := Text.ofString "true"

/-- Flags that were given with their values, the last first. -/
abbrev Given := List (Text × Text)

/-- The value of a flag. -/
def Given.value (given : Given) (spec : Spec) : Text := (given.lookup spec.name).getD spec.default

/-- A switch is on. -/
def Given.isOn (given : Given) (spec : Spec) : Bool := switchValue? (given.value spec) = some true

/-- What an argument is. -/
inductive Argument where
  | plain
  | stop
  | malformed
  | flag (name : Text) (value : Option Text)
deriving DecidableEq, Repr, Inhabited

/-- A name with the value after its first equals sign, which is not the first byte of the name. -/
def splitValue (t : Text) : Argument :=
  match t with
  | [] => .malformed
  | b :: rest =>
    if b = ascii '-' || b = ascii '=' then .malformed
    else
      let name := b :: rest.takeWhile (· ≠ ascii '=')
      match rest.dropWhile (· ≠ ascii '=') with
      | [] => .flag name none
      | _ :: value => .flag name (some value)

/-- Tell a flag from other arguments. -/
def classify (t : Text) : Argument :=
  match t with
  | b :: c :: rest =>
    if b ≠ ascii '-' then .plain
    else if c ≠ ascii '-' then splitValue (c :: rest)
    else if rest.isEmpty then .stop
    else splitValue rest
  | _ => .plain

/-- Read the flags at the front of a command line, onto those already given; the other arguments come
    with them. -/
def parse (specs : List Spec) (given : Given) : List Text → Except Error (Given × List Text)
  | [] => .ok (given, [])
  | argument :: rest =>
    match classify argument with
    | .plain => .ok (given, argument :: rest)
    | .stop => .ok (given, rest)
    | .malformed => .error (.malformed argument)
    | .flag name value =>
      match specs.find? fun spec => spec.name = name with
      | none =>
        if name = Text.ofString "help" || name = Text.ofString "h" then .error .help
        else .error (.unknown name)
      | some spec =>
        if spec.isSwitch then
          let value := value.getD on
          if (switchValue? value).isNone then .error (.notSwitch value name)
          else parse specs ((name, value) :: given) rest
        else
          match value, rest with
          | some value, rest => parse specs ((name, value) :: given) rest
          | none, value :: rest => parse specs ((name, value) :: given) rest
          | none, [] => .error (.noValue name)

/-- The lines that explain a flag. -/
def usageLine (spec : Spec) : String :=
  let default := spec.default.quote
  let note := if spec.default.isEmpty || spec.isSwitch then "" else s!" (default {default.display})"
  let gap := if spec.isSwitch && spec.name.length = 1 then "\t" else "\n    \t"
  let kind := if spec.isSwitch then "" else " string"
  s!"  -{spec.name.display}{kind}{gap}{spec.help}{note}\n"

/-- How a command is used. -/
def usage (command : Text) (specs : List Spec) : String :=
  s!"Usage of {command.display}:\n" ++ String.join (specs.map usageLine)

end Flags

end VectorRisc
