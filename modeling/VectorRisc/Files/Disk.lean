/-
Module: VectorRisc.Files.Disk
Layer: Files
Purpose: What a program's open files need of the host, and a disk in memory that offers it: files by
  path, in the directory a program starts in or in one that is known, each open file with an offset of
  its own.
Imports: VectorRisc.Bytes, VectorRisc.Files.Error, VectorRisc.Files.Flags
Trusted boundary: none
Main exports: FileSystem, Disk, Disk.find?, Disk.replace, Disk.nameFault?
Open obligations: none
-/
import VectorRisc.Bytes
import VectorRisc.Files.Error
import VectorRisc.Files.Flags

namespace VectorRisc

/-- A host whose state is `σ`. Files are opened under a name and used under the handle that opening
    gives. Each operation may fail, and may change the host whether it fails or not. -/
class FileSystem (σ : Type) where
  openFile : σ → (path : Text) → OpenMode → (permissions : UInt64) → Except Files.HostFault Nat × σ
  readFile : σ → (handle n : Nat) → Except Files.HostFault (List UInt8) × σ
  writeFile : σ → (handle : Nat) → (bytes : List UInt8) → Except Files.HostFault Nat × σ
  closeFile : σ → (handle : Nat) → Except Files.HostFault Unit × σ

/-- An open file: its name, where the next byte is read or written, and whether writes go to the end. -/
structure OpenFile where
  path : Text
  offset : Nat := 0
  append : Bool
deriving DecidableEq, Repr, Inhabited

/-- Files by path, and open files by handle. -/
structure Disk where
  files : List (Text × ByteArray) := []
  /-- The directories besides the one that paths start in, each with a slash at its end. -/
  directories : List Text := []
  opened : List (Nat × OpenFile) := []
  next : Nat := 0
deriving DecidableEq, Inhabited

namespace Disk

/-- The longest name of a file. -/
def nameLimit : Nat := 255

/-- The content of a file. -/
def find? (d : Disk) (path : Text) : Option ByteArray := d.files.lookup path

/-- The disk with a file of the given content. -/
def replace (d : Disk) (path : Text) (content : ByteArray) : Disk :=
  { d with files := (path, content) :: d.files.filter fun f => f.1 ≠ path }

/-- The name of a file in its directory. -/
def nameOf (path : Text) : Text := (path.reverse.takeWhile (· ≠ ascii '/')).reverse

/-- The directory in a path, with the slash at its end; empty where paths start. -/
def directoryOf (path : Text) : Text := path.take (path.length - (nameOf path).length)

/-- Why a path can lead to no file: it has a zero byte, no name, a directory that is not there, or a
    name that is too long. -/
def nameFault? (d : Disk) (path : Text) : Option Files.HostFault :=
  let directory := directoryOf path
  if path.contains 0 then some .badName
  else if (nameOf path).isEmpty || !(directory.isEmpty || d.directories.contains directory) then
    some .missing
  else if nameLimit < (nameOf path).length then some .nameTooLong
  else none

/-- Open a file. -/
def openFile (d : Disk) (path : Text) (mode : OpenMode) : Except Files.HostFault Nat × Disk :=
  match d.nameFault? path with
  | some fault => (.error fault, d)
  | none =>
    if (d.find? path).isNone && !mode.create then (.error .missing, d)
    else
      let d := if (d.find? path).isNone || mode.truncate then d.replace path ByteArray.empty else d
      (.ok d.next,
        { d with
          opened := (d.next, { path := path, append := mode.append }) :: d.opened
          next := d.next + 1 })

/-- The disk with another offset for an open file. -/
def seek (d : Disk) (handle : Nat) (file : OpenFile) (offset : Nat) : Disk :=
  { d with
    opened := (handle, { file with offset := offset }) :: d.opened.filter fun f => f.1 ≠ handle }

/-- The fault of a handle that is not open. -/
def closedFault : Files.HostFault := .other (Text.ofString "file already closed")

/-- Read at most `n` bytes; at the end of the file there are none. -/
def readFile (d : Disk) (handle n : Nat) : Except Files.HostFault (List UInt8) × Disk :=
  match d.opened.lookup handle with
  | none => (.error closedFault, d)
  | some file =>
    let content := (d.find? file.path).getD ByteArray.empty
    let bytes := Bytes.window content file.offset (min n (content.size - file.offset))
    (.ok bytes, d.seek handle file (file.offset + bytes.length))

/-- The content with bytes written at an offset; a hole before them is filled with zeros. -/
def splice (content : ByteArray) (offset : Nat) (bytes : List UInt8) : ByteArray :=
  Bytes.overlay (content ++ Bytes.zeros (offset + bytes.length - content.size)) offset bytes

/-- Write bytes at the file's offset, or at its end. -/
def writeFile (d : Disk) (handle : Nat) (bytes : List UInt8) : Except Files.HostFault Nat × Disk :=
  match d.opened.lookup handle with
  | none => (.error closedFault, d)
  | some file =>
    let content := (d.find? file.path).getD ByteArray.empty
    let offset := if file.append then content.size else file.offset
    if bytes.isEmpty then (.ok 0, d)
    else
      (.ok bytes.length,
        (d.replace file.path (splice content offset bytes)).seek handle file (offset + bytes.length))

/-- Close a file. -/
def closeFile (d : Disk) (handle : Nat) : Except Files.HostFault Unit × Disk :=
  match d.opened.lookup handle with
  | none => (.error closedFault, d)
  | some _ => (.ok (), { d with opened := d.opened.filter fun f => f.1 ≠ handle })

instance : FileSystem Disk where
  openFile d path mode _ := d.openFile path mode
  readFile := readFile
  writeFile := writeFile
  closeFile := closeFile

end Disk

end VectorRisc
