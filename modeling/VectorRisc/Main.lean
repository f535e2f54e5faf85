/-
Module: VectorRisc.Main
Layer: Main
Purpose: The command line. The first argument names the command. Files that a command reads are fetched
  before it runs, those it has written are stored afterwards; a running program gets its input and its
  files when it asks for them, and its output is passed on at every instruction.
Imports: VectorRisc.Command.Tool
Trusted boundary: the file system, the environment and the standard streams of the host.
Main exports: main
Open obligations: none
-/
import VectorRisc.Command.Tool

namespace VectorRisc

namespace Shell

/-- Know the directory of a path, if the host has it. -/
def visit (disk : Disk) (path : Text) : IO Disk := do
  let directory := Disk.directoryOf path
  if directory.isEmpty || disk.directories.contains directory then return disk
  try
    let _ ← IO.FS.realPath directory.display
    return { disk with directories := directory :: disk.directories }
  catch _ => return disk

/-- Fetch a file of the host, if it is there. -/
def fetch (disk : Disk) (path : Text) : IO Disk := do
  let disk ← visit disk path
  try
    return disk.replace path (← IO.FS.readBinFile path.display)
  catch _ => return disk

/-- Fetch several files. -/
def fetchAll (disk : Disk) : List Text → IO Disk
  | [] => return disk
  | path :: rest => do fetchAll (← fetch disk path) rest

/-- Store the files that have changed. -/
def store (before after : Disk) : IO Unit := do
  for (path, content) in after.files do
    if (before.find? path) ≠ some content then IO.FS.writeBinFile path.display content

/-- Pass on output. -/
def pass (output errors : ByteArray) : IO Unit := do
  if !output.isEmpty then
    let stdout ← IO.getStdout
    stdout.write output
    stdout.flush
  if !errors.isEmpty then (← IO.getStderr).write errors

/-- The variables of the environment that the commands look at. -/
def environment : IO (List (Text × Text)) := do
  let mut env := []
  for name in ["SRA_VERBOSE", "SRA_STACK"] do
    if let some value ← IO.getEnv name then
      env := (Text.ofString name, Text.ofString value) :: env
  return env

/-- Pass on what a machine has written and logged, and forget it. -/
def drain (e : Emulator Disk) : IO (Emulator Disk) := do
  let m := e.machine
  let console := m.files.console
  let log := Command.lineBytes (Command.logOf e)
  pass console.output.written (log ++ console.error.written)
  let console := { console with
    output := .collecting ByteArray.empty
    error := .collecting ByteArray.empty }
  return { e with machine := { m with log := #[], files := { m.files with console := console } } }

/-- Serve what the next instruction wants. The disk as it was fetched comes along. -/
def serve (e : Emulator Disk) (fetched : Disk) : IO (Emulator Disk × Disk) := do
  let m := e.machine
  match Command.demand? m with
  | none => return (e, fetched)
  | some (.file path) =>
    let host ← fetch m.files.host path
    let e := { e with machine := { m with files := { m.files with host := host } } }
    return (e, { fetched with files := ((host.find? path).map (path, ·)).toList ++ fetched.files })
  | some .input =>
    let bytes ← (← IO.getStdin).read (USize.ofNat Input.capacity)
    let console := { m.files.console with input := { stream := Piece.ofBytes (Bytes.toList bytes) } }
    return ({ e with machine := { m with files := { m.files with console := console } } }, fetched)

/-- Run a program to its end. -/
partial def loop (session : Command.Session) (e : Emulator Disk) (fetched : Disk) : IO UInt32 := do
  let (e, fetched) ← serve e fetched
  let (e, ending) := e.run 1
  let e ← drain e
  if ending = .stopped then loop session e fetched
  else
    store fetched e.machine.files.host
    let (status, messages) := Command.finish session e ending
    pass ByteArray.empty (Command.lineBytes messages)
    return UInt32.ofNat status

/-- Run a program that the host's disk holds. -/
def simulate (call : Command.Call) (disk : Disk) : IO UInt32 := do
  let seed ← IO.rand 0 Numeral.unsignedMax
  match Command.prepare call disk (UInt64.ofNat seed) with
  | .error result =>
    pass result.output result.errors
    return UInt32.ofNat result.status
  | .ok session => loop session session.emulator disk

/-- Assemble, link or describe files of the host. -/
def build (call : Command.Call) (disk : Disk) : IO UInt32 := do
  let result := Command.build call disk
  store disk result.disk
  pass result.output result.errors
  return UInt32.ofNat result.status

end Shell

end VectorRisc

open VectorRisc in
/-- Call the command that the first argument names. -/
def main (args : List String) : IO UInt32 := do
  let words := args.map Text.ofString
  let call : Command.Call := { name := words.headD [], args := words.tail, env := ← Shell.environment }
  let disk ← Shell.fetchAll {} words.tail
  match Command.Tool.ofName? call.name with
  | some .build => Shell.build call disk
  | some .simulate => Shell.simulate call disk
  | none =>
    (← IO.getStderr).putStrLn "usage: sra-asm|sra-sim [flags] file..."
    return 2
