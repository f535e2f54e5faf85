/-
Module: VectorRisc.Command.Basic
Layer: Command
Purpose: What a command is given and what it leaves behind: arguments, environment, input and disk; exit
  status, output and disk.
Imports: VectorRisc.Command.Flags, VectorRisc.Files.Disk
Trusted boundary: none
Main exports: Command.Call, Command.Result, Command.readFile, Command.writeFile
Open obligations: none
-/
import VectorRisc.Command.Flags
import VectorRisc.Files.Disk

namespace VectorRisc

namespace Command

/-- How a command is called: under a name, with arguments, environment and input. -/
structure Call where
  name : Text
  args : List Text := []
  env : List (Text × Text) := []
  input : List UInt8 := []
deriving DecidableEq, Repr, Inhabited

/-- What a command leaves behind. -/
structure Result where
  status : Nat := 0
  output : ByteArray := ByteArray.empty
  errors : ByteArray := ByteArray.empty
  disk : Disk
deriving DecidableEq, Inhabited

/-- Lines as bytes, each with its end. -/
def lineBytes (lines : List String) : ByteArray :=
  lines.foldl (fun acc line => acc ++ line.toUTF8 ++ "\n".toUTF8) ByteArray.empty

/-- A command that fails with a message after the lines of its log. -/
def fail (disk : Disk) (log : List String) (message : String) : Result :=
  { status := 1, errors := lineBytes (log ++ [message]), disk := disk }

/-- A command line that cannot be read. To ask for help is no failure. -/
def misuse (disk : Disk) (name : Text) (specs : List Flags.Spec) (e : Flags.Error) : Result :=
  let usage := Flags.usage name specs
  if e = .help then { errors := usage.toUTF8, disk := disk }
  else { status := 2, errors := s!"{e.message}\n{usage}".toUTF8, disk := disk }

/-- A variable of the environment; an empty one counts as not set. -/
def Call.setting? (call : Call) (name : String) : Option Text :=
  (call.env.lookup (Text.ofString name)).filter fun value => !value.isEmpty

/-- Words that switch something on. -/
def yesWords : List String :=
  ["1", "absolutely", "affirmative", "enable", "enabled", "positive", "t", "true", "y", "yes"]

/-- The value of a variable switches something on: it is one of the words, in small letters, with a
    capital first letter or all in capitals. -/
def isYes (value : Text) : Bool :=
  yesWords.any fun w => [w, w.capitalize, w.toUpper].any fun v => Text.ofString v = value

/-- The environment asks for a log. -/
def Call.wantsLog (call : Call) : Bool := ((call.setting? "SRA_VERBOSE").map isYes).getD false

/-- The switch for a log. -/
def Call.verboseSpec (call : Call) : Flags.Spec :=
  { name := Text.ofString "v", isSwitch := true, help := "Verbose mode"
    default := if call.wantsLog then Flags.on else [] }

/-- Read a whole file. -/
def readFile (disk : Disk) (path : Text) : Except String ByteArray :=
  match disk.nameFault? path, disk.find? path with
  | some fault, _ => .error s!"open {path.display}: {fault.message}"
  | none, none => .error s!"open {path.display}: {Files.HostFault.missing.message}"
  | none, some content => .ok content

/-- Write a whole file. -/
def writeFile (disk : Disk) (path : Text) (content : ByteArray) : Except String Disk :=
  match disk.nameFault? path with
  | some fault => .error s!"open {path.display}: {fault.message}"
  | none => .ok (disk.replace path content)

end Command

end VectorRisc
