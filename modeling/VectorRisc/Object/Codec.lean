/-
Module: VectorRisc.Object.Codec
Layer: Object
Purpose: Object files as bytes. A 64-byte file header is followed by 56-byte program headers for the four
  segments and, in a relocatable object, for the relocation and the symbol table, and then by their
  contents. All numbers have their low byte first.
Imports: VectorRisc.Message, VectorRisc.Object.File
Trusted boundary: none
Main exports: ObjectFile.Error, ObjectFile.encode, ObjectFile.decode
Open obligations: none
-/
import VectorRisc.Message
import VectorRisc.Object.File

namespace VectorRisc

namespace ObjectFile

/-- Why bytes are no object file, or an object has no bytes. -/
inductive Error where
  | magic
  | wordClass
  | endian
  | version
  | machine (code : UInt16)
  | headerSize (size : UInt16)
  | headerCount (count : UInt16)
  | unreadableKind (code : UInt16)
  | unwritableKind (kind : FileKind)
  | truncated
  | header
  | relocationKind
  | symbolKind
  | scope
  | inHeader (index : Nat) (kind : HeaderKind) (cause : Error)
  /-- The end of the program headers wraps around the address space, so that reading them would leave
      the file. -/
  | outOfBounds
deriving DecidableEq, Repr, Inhabited

/-- The text of an object file error. -/
def Error.message : Error → String
  | .magic => "not an SRA object"
  | .wordClass => "not a 64-bit object"
  | .endian => "not a little-endian object"
  | .version => "object version unsupported"
  | .machine code => s!"object machine unsupported: {hexed code.toNat}"
  | .headerSize size => s!"program header malformed: entry size {plain size.toNat}"
  | .headerCount count => s!"program header malformed: {plain count.toNat} entries"
  | .unreadableKind code => s!"object type unsupported: {plain code.toNat}"
  | .unwritableKind kind => s!"object type unsupported: {kind.name.display}"
  | .truncated => "object truncated"
  | .header => "program header malformed"
  | .relocationKind => "relocation type invalid"
  | .symbolKind => "symbol type invalid"
  | .scope => "scope invalid"
  | .inHeader index kind cause =>
    s!"program header {shown index} ({kind.name.display}): {cause.message}"
  | .outOfBounds => "program headers out of bounds"

/-! ### Headers -/

/-- Bytes of the file header. -/
def fileHeaderSize : Nat := 64

/-- Bytes of a program header. -/
def programHeaderSize : Nat := 56

/-- The number of the machine that objects are for. -/
def machineCode : UInt16 := 0x5352

/-- The version of the format. -/
def formatVersion : UInt32 := 1

/-- The alignment that the tables claim. -/
def tableAlign : UInt64 := 8

/-- The first bytes of every object: a magic number, 64-bit words, low byte first, version one. -/
def identity : List UInt8 :=
  [0x7f, ascii 'S', ascii 'R', ascii 'A', 2, 1, 1, 0, 0, 0, 0, 0, 0, 0, 0, 0]

/-- The fields of the file header that mean something. -/
structure FileHeader where
  identity : List UInt8
  kind : UInt16
  machine : UInt16
  version : UInt32
  entry : UInt64
  headersAt : UInt64
  headerSize : UInt16
  headerCount : UInt16
deriving DecidableEq, Repr, Inhabited

/-- The bytes of a file header. The fields that mean nothing are zero, but for the header's own size. -/
def FileHeader.bytes (h : FileHeader) : List UInt8 :=
  h.identity ++ Bytes.ofNat 2 h.kind.toNat ++ Bytes.ofNat 2 h.machine.toNat ++
    Bytes.ofNat 4 h.version.toNat ++ Bytes.ofNat 8 h.entry.toNat ++ Bytes.ofNat 8 h.headersAt.toNat ++
    Bytes.ofNat 8 0 ++ Bytes.ofNat 4 0 ++ Bytes.ofNat 2 fileHeaderSize ++
    Bytes.ofNat 2 h.headerSize.toNat ++ Bytes.ofNat 2 h.headerCount.toNat ++ Bytes.ofNat 6 0

/-- The number in `width` bytes at an offset. -/
def fieldAt (bytes : List UInt8) (offset width : Nat) : Nat :=
  Bytes.toNat ((bytes.drop offset).take width)

/-- The file header at the front of some bytes. -/
def FileHeader.read (bytes : List UInt8) : FileHeader where
  identity := bytes.take 16
  kind := UInt16.ofNat (fieldAt bytes 16 2)
  machine := UInt16.ofNat (fieldAt bytes 18 2)
  version := UInt32.ofNat (fieldAt bytes 20 4)
  entry := UInt64.ofNat (fieldAt bytes 24 8)
  headersAt := UInt64.ofNat (fieldAt bytes 32 8)
  headerSize := UInt16.ofNat (fieldAt bytes 54 2)
  headerCount := UInt16.ofNat (fieldAt bytes 56 2)

/-- The number of program headers of a file kind: four segments, and two tables in a relocatable
    object. -/
def headersOf? (kind : FileKind) : Option Nat :=
  if kind = .relocatable then some 6 else if kind = .executable then some 4 else none

/-- The file header describes an object that can be read. -/
def FileHeader.check (h : FileHeader) : Except Error Unit :=
  if h.identity.take 4 ≠ ObjectFile.identity.take 4 then .error .magic
  else if h.identity[4]? ≠ some 2 then .error .wordClass
  else if h.identity[5]? ≠ some 1 then .error .endian
  else if h.identity[6]? ≠ some 1 || h.version ≠ formatVersion then .error .version
  else if h.machine ≠ machineCode then .error (.machine h.machine)
  else if h.headerSize.toNat ≠ programHeaderSize then .error (.headerSize h.headerSize)
  else
    match headersOf? ⟨h.kind⟩ with
    | none => .error (.unreadableKind h.kind)
    | some count =>
      if h.headerCount.toNat ≠ count then .error (.headerCount h.headerCount) else .ok ()

/-- A program header: where the content stands in the file and in memory. -/
structure ProgramHeader where
  kind : HeaderKind
  flags : UInt32
  offset : UInt64 := 0
  addr : UInt64 := 0
  fileSize : UInt64
  memSize : UInt64 := 0
  align : UInt64
deriving DecidableEq, Repr, Inhabited

/-- The bytes of a program header; the address stands there twice. -/
def ProgramHeader.bytes (p : ProgramHeader) : List UInt8 :=
  Bytes.ofNat 4 p.kind.code.toNat ++ Bytes.ofNat 4 p.flags.toNat ++ Bytes.ofNat 8 p.offset.toNat ++
    Bytes.ofNat 8 p.addr.toNat ++ Bytes.ofNat 8 p.addr.toNat ++ Bytes.ofNat 8 p.fileSize.toNat ++
    Bytes.ofNat 8 p.memSize.toNat ++ Bytes.ofNat 8 p.align.toNat

/-- The program header at the front of some bytes. -/
def ProgramHeader.read (bytes : List UInt8) : ProgramHeader where
  kind := ⟨UInt32.ofNat (fieldAt bytes 0 4)⟩
  flags := UInt32.ofNat (fieldAt bytes 4 4)
  offset := UInt64.ofNat (fieldAt bytes 8 8)
  addr := UInt64.ofNat (fieldAt bytes 16 8)
  fileSize := UInt64.ofNat (fieldAt bytes 32 8)
  memSize := UInt64.ofNat (fieldAt bytes 40 8)
  align := UInt64.ofNat (fieldAt bytes 48 8)

/-- The first `n` program headers in some bytes. -/
def readHeaders : (n : Nat) → List UInt8 → List ProgramHeader
  | 0, _ => []
  | n + 1, bytes => .read bytes :: readHeaders n (bytes.drop programHeaderSize)

/-! ### Tables

A table is a 64-bit count and that many entries. A relocation is its position, the length of its label
in 32 bits, the label, and kind and scope in 16 bits each; a symbol is label, kind, scope, position. -/

/-- The bytes of a label: its length and its text. -/
def labelBytes (label : Text) : List UInt8 := Bytes.ofNat 4 label.length ++ label

/-- The bytes of a relocation. -/
def relocationBytes (r : Relocation) : List UInt8 :=
  Bytes.ofNat 8 r.position.toNat ++ labelBytes r.label ++ Bytes.ofNat 2 r.kind.code.toNat ++
    Bytes.ofNat 2 r.scope.code.toNat

/-- The bytes of a symbol. -/
def symbolBytes (s : Symbol) : List UInt8 :=
  labelBytes s.label ++ Bytes.ofNat 2 s.kind.code.toNat ++ Bytes.ofNat 2 s.scope.code.toNat ++
    Bytes.ofNat 8 s.position.toNat

/-- The bytes of a table. -/
def tableBytes {α : Type} (entry : α → List UInt8) (entries : List α) : List UInt8 :=
  Bytes.ofNat 8 entries.length ++ entries.flatMap entry

/-- The first `n` bytes and the rest, if there are as many. -/
def take? (n : Nat) (bytes : List UInt8) : Option (List UInt8 × List UInt8) :=
  let head := bytes.take n
  if head.length = n then some (head, bytes.drop n) else none

/-- The number in the first `width` bytes, and the rest. -/
def number? (width : Nat) (bytes : List UInt8) : Option (Nat × List UInt8) :=
  (take? width bytes).map fun (head, rest) => (Bytes.toNat head, rest)

/-- The label at the front, and the rest. -/
def label? (bytes : List UInt8) : Option (Text × List UInt8) :=
  (number? 4 bytes).bind fun (length, rest) => take? length rest

/-- The relocation at the front and the rest. Its kind and scope must mean something, once all of it
    is there. -/
def readRelocation (bytes : List UInt8) : Except Error (Relocation × List UInt8) :=
  let fields := do
    let (position, r) ← number? 8 bytes
    let (label, r) ← label? r
    let (kind, r) ← number? 2 r
    let (scope, r) ← number? 2 r
    return (Relocation.mk (.ofNat position) label ⟨.ofNat kind⟩ ⟨.ofNat scope⟩, r)
  match fields with
  | none => .error .truncated
  | some (entry, r) =>
    if RelocationKind.greatest < entry.kind.code then .error .relocationKind
    else if Scope.greatest < entry.scope.code then .error .scope
    else .ok (entry, r)

/-- The symbol at the front and the rest. Its kind and scope must mean something, once all of it is
    there. -/
def readSymbol (bytes : List UInt8) : Except Error (Symbol × List UInt8) :=
  let fields := do
    let (label, r) ← label? bytes
    let (kind, r) ← number? 2 r
    let (scope, r) ← number? 2 r
    let (position, r) ← number? 8 r
    return (Symbol.mk label ⟨.ofNat kind⟩ ⟨.ofNat scope⟩ (.ofNat position), r)
  match fields with
  | none => .error .truncated
  | some (entry, r) =>
    if SymbolKind.greatest < entry.kind.code then .error .symbolKind
    else if Scope.greatest < entry.scope.code then .error .scope
    else .ok (entry, r)

/-- The first `n` entries of a table. -/
def readEntries {α : Type} (entry : List UInt8 → Except Error (α × List UInt8)) :
    (n : Nat) → List UInt8 → Except Error (List α)
  | 0, _ => .ok []
  | n + 1, bytes =>
    match entry bytes with
    | .error e => .error e
    | .ok (a, rest) => (readEntries entry n rest).map (a :: ·)

/-- Bytes of the shortest table entry. -/
def entryMinimum : Nat := 16

/-- A table. The count must not ask for more entries than the bytes can hold; bytes after the last
    entry do not matter. -/
def readTable {α : Type} (entry : List UInt8 → Except Error (α × List UInt8)) (bytes : List UInt8) :
    Except Error (List α) :=
  match number? 8 bytes with
  | none => .error .truncated
  | some (count, rest) =>
    if rest.length / entryMinimum < count then .error .truncated else readEntries entry count rest

/-! ### Whole files -/

/-- The program header of a segment's section, not yet placed in the file. -/
def sectionHeader (file : ObjectFile) (s : Segment) : ProgramHeader :=
  let sect := file.sections.get s
  { kind := HeaderKind.ofSegment file.kernelStart s
    flags := UInt32.ofNat s.access.bits
    addr := sect.addr
    fileSize := Bytes.size64 sect.data
    memSize := sect.size
    align := s.align }

/-- The program header of a table, not yet placed in the file. -/
def tableHeader (kind : HeaderKind) (content : List UInt8) : ProgramHeader :=
  { kind := kind, flags := UInt32.ofNat Access.forRead.bits,
    fileSize := UInt64.ofNat content.length, align := tableAlign }

/-- Place contents one after the other from an offset on. -/
def place : (offset : UInt64) → List ProgramHeader → List ProgramHeader
  | _, [] => []
  | offset, p :: rest => { p with offset := offset } :: place (offset + p.fileSize) rest

/-- Every program header with the content it describes. -/
def contents (file : ObjectFile) : List (ProgramHeader × List UInt8) :=
  let segments := Segment.all.map fun s =>
    (sectionHeader file s, Bytes.toList (file.sections.get s).data)
  if file.kind = .relocatable then
    let relocations := tableBytes relocationBytes file.relocations
    let symbols := tableBytes symbolBytes file.symbols
    segments ++ [(tableHeader .relocations relocations, relocations),
      (tableHeader .symbols symbols, symbols)]
  else segments

/-- The bytes of an object file. -/
def encode (file : ObjectFile) : Except Error (List UInt8) :=
  match headersOf? file.kind with
  | none => .error (.unwritableKind file.kind)
  | some count =>
    let parts := file.contents
    let header : FileHeader :=
      { identity := identity, kind := file.kind.code, machine := machineCode,
        version := formatVersion, entry := file.entry,
        headersAt := UInt64.ofNat fileHeaderSize, headerSize := UInt16.ofNat programHeaderSize,
        headerCount := UInt16.ofNat count }
    let start := UInt64.ofNat (fileHeaderSize + programHeaderSize * count)
    .ok (header.bytes ++ (place start (parts.map (·.1))).flatMap ProgramHeader.bytes ++
      parts.flatMap (·.2))

/-- The content that a program header points at; both its ends must lie inside the file. -/
def chunk? (bytes : List UInt8) (p : ProgramHeader) : Option (List UInt8) :=
  if p.offset.toNat + p.fileSize.toNat ≤ bytes.length then
    some ((bytes.drop p.offset.toNat).take p.fileSize.toNat)
  else none

/-- The section of a segment. The header must be of the segment's kind and claim no less memory than
    it has bytes. -/
def readSection (bytes : List UInt8) (index : Nat) (s : Segment) (p : ProgramHeader) :
    Except Error Section :=
  match chunk? bytes p with
  | none => .error (.inHeader index p.kind .truncated)
  | some content =>
    if p.kind ≠ HeaderKind.ofSegment (p.kind = .kernelStart) s || p.memSize < p.fileSize then
      .error (.inHeader index p.kind .header)
    else .ok { addr := p.addr, data := Bytes.ofList content, memSize := p.memSize }

/-- The table behind a program header, which must be of the given kind. -/
def readTableAt {α : Type} (entry : List UInt8 → Except Error (α × List UInt8)) (kind : HeaderKind)
    (bytes : List UInt8) (index : Nat) (p : ProgramHeader) : Except Error (List α) :=
  match chunk? bytes p with
  | none => .error (.inHeader index p.kind .truncated)
  | some content =>
    if p.kind ≠ kind then .error (.inHeader index p.kind .header)
    else
      match readTable entry content with
      | .error e => .error (.inHeader index p.kind e)
      | .ok entries => .ok entries

/-- The object that some program headers describe. -/
def ofHeaders (bytes : List UInt8) (h : FileHeader) (headers : List ProgramHeader) :
    Except Error ObjectFile :=
  match headers with
  | p0 :: p1 :: p2 :: p3 :: tables => do
    let text ← readSection bytes 0 .text p0
    let data ← readSection bytes 1 .data p1
    let ktext ← readSection bytes 2 .ktext p2
    let kdata ← readSection bytes 3 .kdata p3
    let file : ObjectFile :=
      { kind := ⟨h.kind⟩, entry := h.entry, kernelStart := p2.kind = .kernelStart,
        sections := ⟨text, data, ktext, kdata⟩ }
    match tables with
    | p4 :: p5 :: _ =>
      let relocations ← readTableAt readRelocation .relocations bytes 4 p4
      let symbols ← readTableAt readSymbol .symbols bytes 5 p5
      return { file with relocations := relocations, symbols := symbols }
    | _ => return file
  | _ => .error .truncated

/-- The object file in some bytes. Bytes that no header points at do not matter. -/
def decode (bytes : List UInt8) : Except Error ObjectFile :=
  if bytes.length < fileHeaderSize then .error .truncated
  else
    let h := FileHeader.read bytes
    match h.check with
    | .error e => .error e
    | .ok () =>
      let stop := h.headersAt + UInt64.ofNat (h.headerCount.toNat * programHeaderSize)
      if h.headersAt < UInt64.ofNat fileHeaderSize || UInt64.ofNat bytes.length < stop then
        .error .truncated
      else if stop < h.headersAt then .error .outOfBounds
      else
        ofHeaders bytes h (readHeaders h.headerCount.toNat (bytes.drop h.headersAt.toNat))

end ObjectFile

end VectorRisc
