/-
Module: VectorRisc.Object.Kind
Layer: Object
Purpose: The code numbers an object file carries: kinds of file, program header, symbol, scope and
  relocation. Each is kept as the number it was given, with names for the numbers that mean something.
Imports: VectorRisc.Object.Segment
Trusted boundary: none
Main exports: FileKind, HeaderKind, SymbolKind, Scope, RelocationKind, Patch, Segment.Traits
Open obligations: none
-/
import VectorRisc.Object.Segment

namespace VectorRisc

/-- The name at a place of a list of names, or the number after the name of its kind. -/
def codeName (kind : String) (names : List String) (index : Option Nat) (code : Int) : Text :=
  match index.bind fun i => names[i]? with
  | some name => Text.ofString name
  | none => Text.ofString kind ++ [ascii '('] ++ Numeral.decimal code ++ [ascii ')']

/-- The place of a code in a list of names that starts with code one. -/
def fromOne (code : Nat) : Option Nat := if code = 0 then none else some (code - 1)

/-- The kind of an object file. -/
structure FileKind where
  code : UInt16
deriving DecidableEq, Repr, Inhabited

namespace FileKind

/-- An object with relocations and symbols, to be linked. -/
def relocatable : FileKind := ⟨1⟩

/-- A linked program. -/
def executable : FileKind := ⟨2⟩

/-- The name of a file kind. -/
def name (k : FileKind) : Text :=
  codeName "FileType" ["relocatable", "executable"] (fromOne k.code.toNat) k.code.toNat

end FileKind

/-- What a program header describes. -/
structure HeaderKind where
  code : UInt32
deriving DecidableEq, Repr, Inhabited

namespace HeaderKind

/-- Kernel code that starts the kernel's code region. -/
def kernelStart : HeaderKind := ⟨4⟩

/-- The relocation table. -/
def relocations : HeaderKind := ⟨6⟩

/-- The symbol table. -/
def symbols : HeaderKind := ⟨7⟩

/-- The header kind of a segment; kernel code says whether it starts the kernel's code region. -/
def ofSegment (kernelStartsHere : Bool) : Segment → HeaderKind
  | .text => ⟨1⟩
  | .data => ⟨2⟩
  | .ktext => if kernelStartsHere then kernelStart else ⟨3⟩
  | .kdata => ⟨5⟩

/-- The name of a header kind. -/
def name (k : HeaderKind) : Text :=
  codeName "ProgType" ["text", "data", "ktext", "ktext-start", "kdata", "reloc", "symtab"]
    (fromOne k.code.toNat) k.code.toNat

end HeaderKind

/-- The segment that a symbol is defined in. -/
structure SymbolKind where
  code : UInt16
deriving DecidableEq, Repr, Inhabited

namespace SymbolKind

/-- The symbol kind of labels in a segment. -/
def ofSegment : Segment → SymbolKind
  | .data => ⟨0⟩
  | .text => ⟨1⟩
  | .kdata => ⟨2⟩
  | .ktext => ⟨3⟩

/-- The segment of a symbol kind; a number without meaning counts as data. -/
def segment (k : SymbolKind) : Segment :=
  if k.code = 1 then .text else if k.code = 3 then .ktext else if k.code = 2 then .kdata else .data

/-- The greatest number that means something. -/
def greatest : UInt16 := 3

/-- The name of a symbol kind. -/
def name (k : SymbolKind) : Text :=
  codeName "SymbolType" ["data", "text", "kdata", "ktext"] (some k.code.toNat) k.code.toNat

end SymbolKind

/-- Who sees a symbol, or the labels among which a relocation looks for its own. -/
structure Scope where
  code : UInt16
deriving DecidableEq, Repr, Inhabited

namespace Scope

/-- The object itself. -/
def internal : Scope := ⟨0⟩

/-- All objects that are linked together. -/
def global : Scope := ⟨1⟩

/-- The greatest number that means something. -/
def greatest : UInt16 := 1

/-- The name of a scope. -/
def name (s : Scope) : Text :=
  codeName "Scope" ["internal", "global"] (some s.code.toNat) s.code.toNat

end Scope

/-- What a relocation changes in the instruction it stands for. -/
inductive Patch where
  /-- The short immediate of a branch, as a word offset. -/
  | branch
  /-- The word address of a jump. -/
  | jump
  /-- The sixteen-bit slice that the instruction's function code names. -/
  | slice
  /-- All four slices of the four instructions that load an address. -/
  | address
deriving DecidableEq, Repr, Inhabited

/-- The kind of a relocation: what it patches, and bit 2 if the instruction is kernel code. -/
structure RelocationKind where
  code : UInt16
deriving DecidableEq, Repr, Inhabited

namespace RelocationKind

/-- The bit that marks kernel code. -/
def kernelBit : UInt16 := 4

/-- The instruction is kernel code. -/
def isKernel (k : RelocationKind) : Bool := k.code &&& kernelBit ≠ 0

/-- The kind without the mark of kernel code. -/
def user (k : RelocationKind) : RelocationKind := ⟨k.code &&& ~~~kernelBit⟩

/-- What a relocation of this kind patches; a number without meaning patches nothing. -/
def patch? (k : RelocationKind) : Option Patch :=
  if k.user.code = 0 then some .branch
  else if k.user.code = 1 then some .jump
  else if k.user.code = 2 then some .slice
  else if k.user.code = 3 then some .address
  else none

/-- The kind for a patch of user code. -/
def ofPatch : Patch → RelocationKind
  | .branch => ⟨0⟩
  | .jump => ⟨1⟩
  | .slice => ⟨2⟩
  | .address => ⟨3⟩

/-- The segment of the instruction. -/
def segment (k : RelocationKind) : Segment := if k.isKernel then .ktext else .text

/-- The same patch for an instruction in kernel code or user code. -/
def variant (k : RelocationKind) (kernel : Bool) : RelocationKind :=
  if kernel then ⟨k.user.code ||| kernelBit⟩ else k.user

/-- The same patch for an instruction in a segment. -/
def placedIn (k : RelocationKind) (s : Segment) : RelocationKind := k.variant s.isKernel

/-- The greatest number that means something. -/
def greatest : UInt16 := 7

/-- The name of a relocation kind. -/
def name (k : RelocationKind) : Text :=
  codeName "RelocType" ["IFormatImm", "JFormatAddr", "EIFormatImm", "LAAddress", "KIFormatImm",
    "KJFormatAddr", "KEIFormatImm", "KLAAddress"] (some k.code.toNat) k.code.toNat

end RelocationKind

namespace Segment

/-- What a segment number stands for. -/
structure Traits where
  name : Text
  base : UInt64
  isCode : Bool
  isKernel : Bool
  access : Access
  align : UInt64
  symbols : SymbolKind
deriving DecidableEq, Repr, Inhabited

/-- The traits of a segment. -/
def traits (s : Segment) : Traits :=
  ⟨s.name, s.base, s.isCode, s.isKernel, s.access, s.align, SymbolKind.ofSegment s⟩

/-- The traits of a segment number. A number without meaning is user data at the address of code. -/
def traitsOfCode (n : Int) : Traits :=
  match (if n < 0 then none else ofCode? n.toNat) with
  | some s => s.traits
  | none =>
    { data.traits with name := codeName "Segment" [] none n, base := textBase }

end Segment

end VectorRisc
