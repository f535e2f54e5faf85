/-
Module: VectorRisc.Object.File
Layer: Object
Purpose: Object files, relocatable or executable: four sections, an entry address, and for a relocatable
  object the symbols it defines and the relocations it asks for.
Imports: VectorRisc.Bytes, VectorRisc.Object.Kind
Trusted boundary: none
Main exports: Section, Symbol, Relocation, ObjectFile, ObjectFile.empty, ObjectFile.symbol?,
  ObjectFile.globalLabels, ObjectFile.addressOf
Open obligations: none
-/
import VectorRisc.Bytes
import VectorRisc.Object.Kind

namespace VectorRisc

/-- The content of a loadable segment: initial bytes, and zeros up to `memSize` in memory. -/
structure Section where
  addr : UInt64
  data : ByteArray := ByteArray.empty
  memSize : UInt64 := 0
deriving DecidableEq, Inhabited

namespace Section

/-- The number of bytes the section takes in memory. -/
def size (s : Section) : UInt64 :=
  if s.memSize < Bytes.size64 s.data then Bytes.size64 s.data else s.memSize

end Section

/-- A label defined at a byte offset of a segment. -/
structure Symbol where
  label : Text
  kind : SymbolKind
  scope : Scope
  position : UInt64
deriving DecidableEq, Repr, Inhabited

/-- An instruction at a byte offset of its segment whose immediate stands for a label. -/
structure Relocation where
  position : UInt64
  label : Text
  kind : RelocationKind
  scope : Scope
deriving DecidableEq, Repr, Inhabited

/-- An object file. `kernelStart` says that its kernel code starts the kernel's code region. -/
structure ObjectFile where
  kind : FileKind
  entry : UInt64 := 0
  kernelStart : Bool := false
  sections : PerSegment Section
  relocations : List Relocation := []
  symbols : List Symbol := []
deriving DecidableEq, Inhabited

namespace ObjectFile

/-- An object with an empty section at the fixed address of each segment. -/
def empty (kind : FileKind) : ObjectFile :=
  { kind := kind, sections := PerSegment.ofFn fun s => { addr := s.base } }

/-- The first symbol with a label. -/
def symbol? (file : ObjectFile) (label : Text) : Option Symbol :=
  file.symbols.find? fun s => s.label = label

/-- The labels of the global symbols, each once, in byte order. -/
def globalLabels (file : ObjectFile) : List Text :=
  Text.sort ((file.symbols.filter fun s => s.scope = .global).map Symbol.label).eraseDups

/-- The address of a symbol while its section stands where it says. -/
def addressOf (file : ObjectFile) (s : Symbol) : UInt64 :=
  (file.sections.get s.kind.segment).addr + s.position

end ObjectFile

end VectorRisc
