/-
Module: VectorRisc.Command.Simulate
Layer: Command
Purpose: The command that runs an executable. Flags may stand before and after its path.
Imports: VectorRisc.Command.Build, VectorRisc.Emulator
Trusted boundary: none
Main exports: Command.prepare, Command.finish, Command.simulate, Command.Demand, Command.demand?
Open obligations: none
-/
import VectorRisc.Command.Build
import VectorRisc.Emulator

namespace VectorRisc

namespace Command

/-! ### The size of the stack -/

/-- The factor that the last byte of a size stands for. -/
def scaleOf (size : Text) : Nat :=
  match size.getLast? with
  | some b =>
    if b = ascii 'K' || b = ascii 'k' then 1024
    else if b = ascii 'M' || b = ascii 'm' then 1024 * 1024
    else 1
  | none => 1

/-- The largest stack, in bytes. -/
def stackLimit : Nat := 0x10000000000

/-- The number of bytes of a size such as `64K` or `2M`. -/
def readSize (size : Text) : Except String UInt64 :=
  let scale := scaleOf size
  let digits := if scale = 1 then size else size.dropLast
  let quoted := Text.quote digits
  match Numeral.readUnsigned digits with
  | .error .malformed => .error s!"strconv.ParseUint: parsing {quoted.display}: invalid syntax"
  | .error .outOfRange => .error s!"strconv.ParseUint: parsing {quoted.display}: value out of range"
  | .ok n =>
    if n = 0 || stackLimit / scale < n then .error s!"stack size {Text.display digits} out of range"
    else .ok (UInt64.ofNat (n * scale))

/-! ### A run -/

/-- The flag for the size of the stack. -/
def stackSpec (call : Call) : Flags.Spec :=
  { name := Text.ofString "stack", isSwitch := false
    help := "Stack size, with an optional K or M suffix"
    default := (call.setting? "SRA_STACK").getD (Text.ofString "2M") }

/-- A program that is ready to run, under the path that messages name. -/
structure Session where
  path : Text
  emulator : Emulator Disk
  verbose : Bool

/-- Read the flags on both sides of the path of the executable. -/
def readArguments (call : Call) (disk : Disk) : Except Result (Flags.Given × Text) :=
  let specs := [stackSpec call, call.verboseSpec]
  match Flags.parse specs [] call.args with
  | .error e => .error (misuse disk call.name specs e)
  | .ok (_, []) => .error (fail disk [] s!"{call.name.display}: no executable")
  | .ok (given, path :: rest) =>
    match Flags.parse specs given rest with
    | .error e => .error (misuse disk call.name specs e)
    | .ok (given, []) => .ok (given, path)
    | .ok (_, extra) =>
      let list := Text.join [ascii ' '] extra
      .error (fail disk [] s!"{call.name.display}: Unknown arguments: [{list.display}]")

/-- The lines of a machine's log. -/
def logOf (e : Emulator Disk) : List String := e.machine.log.toList.map fun event => event.line

/-- Load the executable that a call names, with a seed for the place of the heap. -/
def prepare (call : Call) (disk : Disk) (seed : UInt64) : Except Result Session := do
  let (given, path) ← readArguments call disk
  let stackSize ← (readSize (given.value (stackSpec call))).mapError fun message =>
    fail disk [] s!"{call.name.display}: {message}"
  let file ← (readObject disk path).mapError fun message => fail disk [] s!"{path.display}: {message}"
  let verbose := given.isOn call.verboseSpec
  let emulator : Emulator Disk :=
    { machine := { files := Files.fresh { input := { stream := Piece.ofBytes call.input } } disk }
      stackSize := stackSize, seed := seed, verbose := verbose }
  let loaded := emulator.load (some file)
  match loaded.error with
  | some e => throw (fail disk (logOf loaded.emulator) s!"{path.display}: {e.message}")
  | none => return ⟨path, loaded.emulator, verbose⟩

/-- The exit status of a code: its value modulo 256. -/
def statusOf (code : Int64) : Nat := code.toUInt64.toNat % 256

/-- The exit status and the last messages of a run. -/
def finish (s : Session) (e : Emulator Disk) : Emulator.Ending → Nat × List String
  | .exited code => (statusOf code, [])
  | .failed cause =>
    (1, s!"{s.path.display}: {cause.message}" ::
      if s.verbose then [e.machine.registers.dump.display] else [])
  | .stopped => (1, [s!"{s.path.display}: context canceled"])

/-- Run an executable for at most `budget` instructions. -/
def simulate (call : Call) (disk : Disk) (seed : UInt64) (budget : Nat) : Result :=
  match prepare call disk seed with
  | .error result => result
  | .ok session =>
    let (e, ending) := session.emulator.run budget
    let (status, messages) := finish session e ending
    let files := e.machine.files
    { status := status
      output := files.console.output.written
      errors := lineBytes (logOf e) ++ files.console.error.written ++ lineBytes messages
      disk := files.reset.host }

/-! ### What the next instruction wants of the world -/

/-- Something that has to be fetched from outside before the next instruction. -/
inductive Demand where
  | input
  | file (path : Text)
deriving DecidableEq, Repr, Inhabited

/-- The service asks for input of the console. -/
def takesInput (m : Machine Disk) : Service → Bool
  | .readInt | .readFloat | .readDouble | .readString | .readChar => true
  | .read => m.argument 0 = Files.standardInput
  | _ => false

/-- What the next instruction wants: a file that it opens, or input when none is left. -/
def demand? (m : Machine Disk) : Option Demand :=
  match m.instructionAt m.registers.pc with
  | .ok (_, _, .service) =>
    match Service.ofCode? (m.get Register.v0) with
    | some .openFile =>
      let path := (m.memory.loadString Machine.pathLimit (m.argument 0)).1
      if (m.files.host.find? path).isSome then none else some (.file path)
    | some service =>
      if takesInput m service && m.files.console.input.rest.isEmpty then some .input else none
    | none => none
  | _ => none

end Command

end VectorRisc
