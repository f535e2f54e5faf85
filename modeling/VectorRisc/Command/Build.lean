/-
Module: VectorRisc.Command.Build
Layer: Command
Purpose: The command that assembles sources, links objects and describes objects. Exactly one of the
  three is done in a call.
Imports: VectorRisc.Command.Basic, VectorRisc.Command.Host, VectorRisc.Object.Codec,
  VectorRisc.Object.Linker, VectorRisc.Platform
Trusted boundary: none
Main exports: Command.build, Command.objectFor
Open obligations: none
-/
import VectorRisc.Command.Basic
import VectorRisc.Command.Host
import VectorRisc.Object.Codec
import VectorRisc.Object.Linker
import VectorRisc.Platform

namespace VectorRisc

namespace Command

/-- Work on a disk with the lines it has logged so far. -/
structure Progress where
  disk : Disk
  log : List String := []

/-- The path of the object of a source: its extension gives way to `.o`. -/
def objectFor (source : Text) : Text :=
  let file := Disk.nameOf source
  let stem := if file.contains (ascii '.') then
      source.take (source.length - (file.reverse.takeWhile (· ≠ ascii '.')).length - 1)
    else source
  stem ++ Text.ofString ".o"

/-- Read an object from a file. -/
def readObject (disk : Disk) (path : Text) : Except String ObjectFile := do
  let content ← readFile disk path
  match ObjectFile.decode (Bytes.toList content) with
  | .ok file => return file
  | .error e => throw s!"{path.display}: {e.message}"

/-- Write an object to a file. -/
def writeObject (disk : Disk) (path : Text) (file : ObjectFile) : Except String Disk := do
  match file.encode with
  | .ok bytes => writeFile disk path (Bytes.ofList bytes)
  | .error e => throw e.message

/-- Assemble a source with the equates of the machine, and write its object beside it. -/
def assembleFile (verbose : Bool) (p : Progress) (source : Text) : Progress × Option String :=
  match readFile p.disk source with
  | .error message => (p, some message)
  | .ok content =>
    let (state, result) := (assembler Platform.equates).assemble (Bytes.toList content)
    let p := if verbose then { p with log := p.log ++ state.log.toList.map (·.render) } else p
    match result with
    | .error e => (p, some e.message)
    | .ok file =>
      match writeObject p.disk (objectFor source) file with
      | .error message => (p, some message)
      | .ok disk => ({ p with disk := disk }, none)

/-- Work on files one after the other, up to the first that fails; its path starts the message. -/
def forEach (work : Progress → Text → Progress × Option String) : List Text → Progress → Result
  | [], p => { disk := p.disk, errors := lineBytes p.log }
  | path :: rest, p =>
    match work p path with
    | (p, some message) => fail p.disk p.log s!"{path.display}: {message}"
    | (p, none) => forEach work rest p

/-- Read objects and add them to a linker. -/
def addObjects (disk : Disk) : List Text → Linker → Except String Linker
  | [], ln => .ok ln
  | path :: rest, ln => do
    let file ← readObject disk path
    let ln ← (ln.add path file).mapError Linker.Error.message
    addObjects disk rest ln

/-- Link objects into an executable. -/
def linkFiles (verbose : Bool) (disk : Disk) (output : Text) (paths : List Text) : Result :=
  match addObjects disk paths {} with
  | .error message => fail disk [] s!"{output.display}: {message}"
  | .ok ln =>
    let (result, events) := ln.link
    let log := if verbose then events.map fun e => e.line else []
    let written := do
      let file ← result.mapError Linker.Error.message
      writeObject disk output file
    match written with
    | .error message => fail disk log s!"{output.display}: {message}"
    | .ok disk => { disk := disk, errors := lineBytes log }

/-- An object as lines of text. -/
def describe (path : Text) (file : ObjectFile) : List String :=
  let sectionLine := fun s : Segment =>
    let content := file.sections.get s
    s!"  {s.name.display} {hexed content.addr.toNat} {plain content.data.size} {hexed content.size.toNat}"
  [s!"{path.display}:", s!"  {file.kind.name.display} entry {hexed file.entry.toNat}"] ++
    Segment.all.map sectionLine ++
    file.relocations.map (fun r =>
      s!"  {r.kind.name.display} {r.scope.name.display} {hexed r.position.toNat} {r.label.display}") ++
    file.symbols.map (fun s =>
      s!"  {s.kind.name.display} {s.scope.name.display} {hexed s.position.toNat} {s.label.display}")

/-- Describe objects, up to the first that cannot be read. -/
def describeFiles (disk : Disk) : List Text → (output : ByteArray) → Result
  | [], output => { disk := disk, output := output }
  | path :: rest, output =>
    match readObject disk path with
    | .error message => { fail disk [] s!"{path.display}: {message}" with output := output }
    | .ok file => describeFiles disk rest (output ++ lineBytes (describe path file))

/-- The flag to assemble. -/
def assembleSpec : Flags.Spec :=
  { name := Text.ofString "a", isSwitch := true, help := "Assemble each source into a .o object" }

/-- The flag to describe. -/
def dumpSpec : Flags.Spec :=
  { name := Text.ofString "dump", isSwitch := true, help := "Dump each object" }

/-- The flag to link. -/
def outputSpec : Flags.Spec :=
  { name := Text.ofString "o", isSwitch := false, help := "Link the objects into this executable" }

/-- Assemble, link or describe. -/
def build (call : Call) (disk : Disk) : Result :=
  let specs := [assembleSpec, dumpSpec, outputSpec, call.verboseSpec]
  match Flags.parse specs [] call.args with
  | .error e => misuse disk call.name specs e
  | .ok (given, paths) =>
    let output := given.value outputSpec
    let verbose := given.isOn call.verboseSpec
    match given.isOn assembleSpec, !output.isEmpty, given.isOn dumpSpec, paths with
    | true, false, false, [] | false, true, false, [] | false, false, true, [] =>
      fail disk [] s!"{call.name.display}: no input files"
    | true, false, false, paths => forEach (assembleFile verbose) paths { disk := disk }
    | false, true, false, paths => linkFiles verbose disk output paths
    | false, false, true, paths => describeFiles disk paths ByteArray.empty
    | _, _, _, _ =>
      fail disk [] s!"{call.name.display}: exactly one of -a, -o or -dump is required"

end Command

end VectorRisc
