/-
Module: VectorRisc.Instruction.Table
Layer: Instruction
Purpose: Validated instruction sets. A list of mnemonics becomes a table only if names are distinct and
  every word belongs to one mnemonic: an opcode is used by one layout, alone unless a function code
  tells its mnemonics apart. Look-up goes by name, or by opcode and function code.
Imports: VectorRisc.Instruction.Mnemonic, VectorRisc.Message
Trusted boundary: none
Main exports: Table, Table.ofList, Table.lookup?, Table.format?, Table.byCode?, Table.Error
Open obligations: none
-/
import VectorRisc.Instruction.Mnemonic
import VectorRisc.Message

namespace VectorRisc

/-- A validated instruction set, in the order it was described. -/
structure Table where
  list : List Mnemonic
deriving DecidableEq, Repr, Inhabited

namespace Table

/-- Why a list of mnemonics is no instruction set. -/
inductive Error where
  | nameDuplicate (name : Text)
  | codeDuplicate (name : Text)
  | opcodeReused (name : Text) (opcode : UInt8)
  | opcodeRange (name : Text) (opcode : UInt8)
  | funcRange (name : Text) (func : UInt16)
  | operandFit (name : Text) (operand : OperandKind)
deriving DecidableEq, Repr, Inhabited

/-- The text of a table error. -/
def Error.message : Error → String
  | .nameDuplicate name => s!"instruction name duplicated: {name.display}"
  | .codeDuplicate name => s!"instruction opcode/func duplicated: {name.display}"
  | .opcodeReused name opcode =>
    s!"opcode reused across formats: {name.display} opcode {hexed opcode.toNat}"
  | .opcodeRange name opcode =>
    s!"instruction field out of range: {name.display} opcode {hexed opcode.toNat}"
  | .funcRange name func =>
    s!"instruction field out of range: {name.display} func {hexed func.toNat}"
  | .operandFit name operand =>
    s!"operands do not fit the format: {name.display} {operand.name.display}"

/-- The code that a mnemonic's words carry: opcode and function code where the layout has one. -/
def codeOf (m : Mnemonic) : UInt8 × UInt16 :=
  match m.format with
  | .r | .ei => (m.opcode, m.func)
  | .i | .j => (m.opcode, 0)
  | .pseudo | .unknown _ => (0, 0)

/-- The layout of the latest real mnemonic with an opcode. -/
def formatIn (list : List Mnemonic) (opcode : UInt8) : Option Format :=
  list.foldl (fun found m => if !m.isPseudo && m.opcode = opcode then some m.format else found) none

/-- The real mnemonic with a given code. -/
def findCode? (list : List Mnemonic) (code : UInt8 × UInt16) : Option Mnemonic :=
  list.find? fun m => !m.isPseudo && codeOf m = code

/-- The largest function code of a layout that has one. -/
def funcLimit? : Format → Option UInt16
  | .r => some 0x3ff
  | .ei => some 0xf
  | _ => none

/-- What is wrong with adding a mnemonic to the ones already accepted, the first fault in this order:
    name, opcode, operands, function code, opcode shared with another layout, code taken. -/
def fault? (seen : List Mnemonic) (m : Mnemonic) : Option Error :=
  if seen.any fun other => other.name = m.name then some (.nameDuplicate m.name)
  else if m.isPseudo then none
  else if 0x7f < m.opcode then some (.opcodeRange m.name m.opcode)
  else
    match m.operands.find? fun op => !(OperandKind.allowed m.format).contains op with
    | some op => some (.operandFit m.name op)
    | none =>
      if (funcLimit? m.format).any fun limit => limit < m.func then some (.funcRange m.name m.func)
      else if clashes m then some (.opcodeReused m.name m.opcode)
      else if (findCode? seen (codeOf m)).isSome then some (.codeDuplicate m.name)
      else none
where
  /-- The opcode already belongs to a mnemonic that this one cannot stand beside. -/
  clashes (m : Mnemonic) : Bool :=
    match m.format with
    | .r | .ei => (formatIn seen m.opcode).any fun f => f ≠ m.format
    | .i | .j => (formatIn seen m.opcode).isSome
    | .pseudo | .unknown _ => false

/-- Accept mnemonics one after the other; those accepted are held in order. -/
def accept (seen : List Mnemonic) : List Mnemonic → Except Error (List Mnemonic)
  | [] => .ok seen
  | m :: rest =>
    match fault? seen m with
    | some e => .error e
    | none => accept (seen ++ [m]) rest

/-- The instruction set of a list of mnemonics. -/
def ofList (list : List Mnemonic) : Except Error Table := (accept [] list).map Table.mk

/-- The mnemonic of a name. -/
def lookup? (tb : Table) (name : Text) : Option Mnemonic := tb.list.find? fun m => m.name = name

/-- The layout that words with an opcode have. -/
def format? (tb : Table) (opcode : UInt8) : Option Format :=
  if 0x7f < opcode then none else formatIn tb.list opcode

/-- The mnemonic of an opcode and a function code; the latter counts only where the layout has one. -/
def byCode? (tb : Table) (opcode : UInt8) (func : UInt16) : Option Mnemonic :=
  match tb.format? opcode with
  | none => none
  | some .i | some .j => findCode? tb.list (opcode, 0)
  | some _ => findCode? tb.list (opcode, func)

/-- The kinds of mnemonic that a set can be asked for by name. -/
inductive Family where
  | scalarR
  | vectorR
  | i
  | j
  | ei
  | pseudo
deriving DecidableEq, Repr, Inhabited

/-- The family that a mnemonic belongs to. -/
def Family.ofMnemonic? (m : Mnemonic) : Option Family :=
  match m.format with
  | .r => some (if m.isVector then .vectorR else .scalarR)
  | .i => some .i
  | .j => some .j
  | .ei => some .ei
  | .pseudo => some .pseudo
  | .unknown _ => none

/-- The family of the mnemonic with a name. -/
def family? (tb : Table) (name : Text) : Option Family :=
  (tb.lookup? name).bind Family.ofMnemonic?

end Table

end VectorRisc
