/-
Module: VectorRisc.Instruction.Mnemonic
Layer: Instruction
Purpose: What an instruction set says about one mnemonic: its layout, its codes, its operands in the
  order they are written, and how its immediate is checked. Layouts, operands and immediates carry a
  number in instruction-set descriptions; a number without a meaning is kept as `unknown`.
Imports: VectorRisc.Numeral.Integer
Trusted boundary: none
Main exports: Format, OperandKind, ImmediateKind, Mnemonic
Open obligations: none
-/
import VectorRisc.Numeral.Integer

namespace VectorRisc

/-- The layout of an instruction word. A `pseudo` mnemonic has no word of its own. -/
inductive Format where
  | r
  | i
  | j
  | ei
  | pseudo
  | unknown (code : Int)
deriving DecidableEq, Repr, Inhabited

namespace Format

/-- The layout with a given number. -/
def ofCode : Int → Format
  | 0 => .r
  | 1 => .i
  | 2 => .j
  | 3 => .ei
  | 4 => .pseudo
  | n => .unknown n

/-- The layout's name. -/
def name : Format → Text
  | .r => Text.ofString "R"
  | .i => Text.ofString "I"
  | .j => Text.ofString "J"
  | .ei => Text.ofString "EI"
  | .pseudo => Text.ofString "pseudo"
  | .unknown n => Text.ofString "Format(" ++ Numeral.decimal n ++ Text.ofString ")"

end Format

/-- What an operand looks like and which field of the word it fills. Vector and kernel registers share
    the fields of the scalar registers of the same letter; `mem` is an offset and a base register,
    `index` an index register and a base register. -/
inductive OperandKind where
  | rd
  | rs
  | rt
  | vd
  | vs
  | vt
  | kd
  | kt
  | imm
  | target
  | mem
  | index
  | unknown (code : Int)
deriving DecidableEq, Repr, Inhabited

namespace OperandKind

/-- The operand kinds in the order of their numbers. -/
def all : List OperandKind := [.rd, .rs, .rt, .vd, .vs, .vt, .kd, .kt, .imm, .target, .mem, .index]

/-- The operand kind with a given number. -/
def ofCode (n : Int) : OperandKind :=
  match n with
  | .ofNat k => all[k]?.getD (.unknown n)
  | .negSucc _ => .unknown n

/-- How an operand kind is written in a description. -/
def name : OperandKind → Text
  | .rd => Text.ofString "rd"
  | .rs => Text.ofString "rs"
  | .rt => Text.ofString "rt"
  | .vd => Text.ofString "vd"
  | .vs => Text.ofString "vs"
  | .vt => Text.ofString "vt"
  | .kd => Text.ofString "kd"
  | .kt => Text.ofString "kt"
  | .imm => Text.ofString "imm"
  | .target => Text.ofString "target"
  | .mem => Text.ofString "imm(rs)"
  | .index => Text.ofString "rt(rs)"
  | .unknown n => Text.ofString "Operand(" ++ Numeral.decimal n ++ Text.ofString ")"

/-- The operands that a layout has fields for. -/
def allowed : Format → List OperandKind
  | .r => [.rd, .rs, .rt, .vd, .vs, .vt, .kd, .kt, .index]
  | .i => [.rt, .rs, .vt, .imm, .target, .mem]
  | .j => [.target]
  | .ei => [.rd, .target]
  | .pseudo => []
  | .unknown _ => []

end OperandKind

/-- How an immediate is range checked and extended. -/
inductive ImmediateKind where
  /-- There is no immediate. -/
  | none
  /-- Fifteen bits, sign-extended. -/
  | signed
  /-- Fifteen bits, zero-extended. -/
  | unsigned
  /-- A shift amount from 0 to 63. -/
  | shift64
  /-- A shift amount from 0 to 31. -/
  | shift32
  /-- A signed word offset from the next instruction. -/
  | branch
  /-- A byte address within the current jump region. -/
  | jump
  /-- A sixteen-bit slice of a 64-bit value. -/
  | slice
  /-- A number that names no kind; nothing is checked. -/
  | unknown (code : Int)
deriving DecidableEq, Repr, Inhabited

namespace ImmediateKind

/-- The immediate kind with a given number. -/
def ofCode : Int → ImmediateKind
  | 0 => .none
  | 1 => .signed
  | 2 => .unsigned
  | 3 => .shift64
  | 4 => .shift32
  | 5 => .branch
  | 6 => .jump
  | 7 => .slice
  | n => .unknown n

/-- The number of an immediate kind. -/
def code : ImmediateKind → Int
  | .none => 0
  | .signed => 1
  | .unsigned => 2
  | .shift64 => 3
  | .shift32 => 4
  | .branch => 5
  | .jump => 6
  | .slice => 7
  | .unknown n => n

/-- The least and the greatest immediate that fit the field, if the kind has a range. -/
def range? : ImmediateKind → Option (Int64 × Int64)
  | .signed | .branch => some (-16384, 16383)
  | .unsigned => some (0, 32767)
  | .shift64 => some (0, 63)
  | .shift32 => some (0, 31)
  | .slice => some (-32768, 65535)
  | .jump => some (0, 0x7fffffc)
  | .none | .unknown _ => Option.none

end ImmediateKind

/-- One entry of an instruction set. -/
structure Mnemonic where
  name : Text
  format : Format
  opcode : UInt8
  func : UInt16
  operands : List OperandKind
  imm : ImmediateKind
deriving DecidableEq, Repr, Inhabited

namespace Mnemonic

/-- The mnemonic has no word of its own. -/
def isPseudo (m : Mnemonic) : Bool := m.format = .pseudo

/-- A vector mnemonic is a real one whose name starts with `v`. -/
def isVector (m : Mnemonic) : Bool := !m.isPseudo && m.name.head? = some (ascii 'v')

end Mnemonic

end VectorRisc
