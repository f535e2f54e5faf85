/-
Module: VectorRisc.Files.Basic
Layer: Files
Purpose: The open files of a program. Descriptors 0, 1 and 2 are the console; every file that is opened
  gets the next number, and no number is given twice until the files are reset.
Imports: VectorRisc.Files.Console, VectorRisc.Files.Disk
Trusted boundary: none
Main exports: Descriptor, Files, Files.reset, Files.open, Files.close, Files.read, Files.write,
  Files.isOpen, Files.descriptors, Files.path?
Open obligations: none
-/
import VectorRisc.Files.Console
import VectorRisc.Files.Disk

namespace VectorRisc

/-- What a descriptor leads to: a stream of the console or a file of the host. -/
inductive Channel where
  | input
  | output
  | error
  | file (handle : Nat)
deriving DecidableEq, Repr, Inhabited

/-- An open descriptor: its path, what it may be used for, and what it leads to. -/
structure Descriptor where
  path : Text
  readable : Bool
  writable : Bool
  channel : Channel
deriving DecidableEq, Repr, Inhabited

/-- The console, the host, and the descriptors with the number that the next one gets. -/
structure Files (σ : Type) where
  console : Console
  host : σ
  table : List (UInt64 × Descriptor)
  next : UInt64

namespace Files

/-- The descriptor of standard input. -/
def standardInput : UInt64 := 0

/-- The descriptor of standard output. -/
def standardOutput : UInt64 := 1

/-- The descriptor of standard error. -/
def standardError : UInt64 := 2

/-- The first descriptor of a file. -/
def firstFile : UInt64 := 3

/-- The descriptors of the console. -/
def consoleTable : List (UInt64 × Descriptor) :=
  [(standardInput, ⟨Text.ofString "stdin", true, false, .input⟩),
    (standardOutput, ⟨Text.ofString "stdout", false, true, .output⟩),
    (standardError, ⟨Text.ofString "stderr", false, true, .error⟩)]

/-- The files of a program that has opened none. -/
def fresh {σ : Type} (console : Console) (host : σ) : Files σ :=
  { console := console.rewind, host := host, table := consoleTable, next := firstFile }

/-- The descriptor with a number. -/
def find? {σ : Type} (f : Files σ) (fd : UInt64) : Option Descriptor := f.table.lookup fd

/-- The descriptor is open. -/
def isOpen {σ : Type} (f : Files σ) (fd : UInt64) : Bool := (f.find? fd).isSome

/-- The path a descriptor was opened with. -/
def path? {σ : Type} (f : Files σ) (fd : UInt64) : Option Text := (f.find? fd).map Descriptor.path

/-- The open descriptors in order. -/
def descriptors {σ : Type} (f : Files σ) : List UInt64 :=
  (f.table.map (·.1)).mergeSort fun a b => a ≤ b

/-- The table without a descriptor. -/
def without (fd : UInt64) (table : List (UInt64 × Descriptor)) : List (UInt64 × Descriptor) :=
  table.filter fun e => e.1 ≠ fd

variable {σ : Type} [FileSystem σ]

/-- Close the files of a table on the host, whatever it answers. -/
def closeAll : List (UInt64 × Descriptor) → σ → σ
  | [], host => host
  | (_, d) :: rest, host =>
    match d.channel with
    | .file handle => closeAll rest (FileSystem.closeFile host handle).2
    | _ => closeAll rest host

/-- Close every file, open the console again, and throw away the input that is held. -/
def reset (f : Files σ) : Files σ := fresh f.console (closeAll f.table f.host)

/-- Open a file under the next number. A failure leaves the table as it was. -/
def openFile (f : Files σ) (path : Text) (flags permissions : UInt64) :
    Except Error UInt64 × Files σ :=
  match OpenMode.ofFlags? flags with
  | none => (.error .badFlags, f)
  | some mode =>
    match FileSystem.openFile f.host path mode permissions with
    | (.error cause, host) => (.error (.host cause), { f with host := host })
    | (.ok handle, host) =>
      (.ok f.next,
        { f with
          host := host
          table := (f.next, ⟨path, mode.read, mode.write, .file handle⟩) :: without f.next f.table
          next := f.next + 1 })

/-- Close a descriptor. It is closed even if the host fails to close the file. -/
def close (f : Files σ) (fd : UInt64) : Except Error Unit × Files σ :=
  match f.find? fd with
  | none => (.error .badDescriptor, f)
  | some d =>
    let f := { f with table := without fd f.table }
    match d.channel with
    | .file handle =>
      let (result, host) := FileSystem.closeFile f.host handle
      (result.mapError Error.host, { f with host := host })
    | _ => (.ok (), f)

/-- Read at most `n` bytes from a descriptor that is open for reading. -/
def read (f : Files σ) (fd : UInt64) (n : Nat) : Except Error (List UInt8) × Files σ :=
  match f.find? fd with
  | none => (.error .badDescriptor, f)
  | some d =>
    if !d.readable then (.error .notReadable, f)
    else
      match d.channel with
      | .file handle =>
        let (result, host) := FileSystem.readFile f.host handle n
        (result.mapError Error.host, { f with host := host })
      | .input =>
        let (bytes, input) := f.console.input.read n
        (.ok bytes, { f with console := { f.console with input := input } })
      | _ => (.error .notReadable, f)

/-- Write bytes to a descriptor that is open for writing, and tell how many were taken. -/
def write (f : Files σ) (fd : UInt64) (bytes : List UInt8) : Except Error Nat × Files σ :=
  match f.find? fd with
  | none => (.error .badDescriptor, f)
  | some d =>
    if !d.writable then (.error .notWritable, f)
    else
      match d.channel with
      | .file handle =>
        let (result, host) := FileSystem.writeFile f.host handle bytes
        (result.mapError Error.host, { f with host := host })
      | .output =>
        let (result, sink) := f.console.output.write bytes
        (result, { f with console := { f.console with output := sink } })
      | .error =>
        let (result, sink) := f.console.error.write bytes
        (result, { f with console := { f.console with error := sink } })
      | .input => (.error .notWritable, f)

/-- Take something from the input of the console. -/
def take {α : Type} (f : Files σ) (get : Input → α × Input) : α × Files σ :=
  let (a, input) := get f.console.input
  (a, { f with console := { f.console with input := input } })

end Files

end VectorRisc
