/-
Module: VectorRisc.Instruction.Basic
Layer: Instruction
Purpose: One instruction: a mnemonic with its register fields, its immediate, and a label in place of an
  immediate that the linker supplies. An instruction is read from and written as assembler text, and
  packed into and unpacked from its word.
Imports: VectorRisc.Instruction.Register, VectorRisc.Instruction.Set, VectorRisc.Instruction.Word
Trusted boundary: none
Main exports: Instruction, Instruction.Error, Resolver, Instruction.parse, Instruction.render,
  Instruction.check, Instruction.encode, Instruction.decode
Open obligations: none
-/
import VectorRisc.Instruction.Register
import VectorRisc.Instruction.Set
import VectorRisc.Instruction.Word

namespace VectorRisc

/-- An instruction with its operands. Vector and kernel registers are held in the field of the scalar
    register of the same letter. A jump target is a byte address. A label that is not empty stands for
    an immediate that a relocation supplies later. -/
structure Instruction where
  mnemonic : Mnemonic
  rd : UInt8 := 0
  rs : UInt8 := 0
  rt : UInt8 := 0
  imm : Int64 := 0
  label : Text := []
deriving DecidableEq, Repr, Inhabited

namespace Instruction

/-- Why a line is no instruction, an instruction has no word, or a word no instruction. -/
inductive Error where
  | mnemonicUnknown (name : Text)
  | mnemonicAbsent
  | operandCount (name : Text) (takes given : Nat)
  | operandMissing
  | operandMalformed
  | operand (index : Nat) (text : Text) (cause : Error)
  | notRegister (word : Text)
  | notNumber (word : Text)
  | notLabel (word : Text)
  | immediateRange (value least greatest : Int64)
  | targetAlign (value : Int64)
  | pseudoWord (name : Text)
  | badWord (word : Word)
deriving DecidableEq, Repr, Inhabited

/-- The text of an instruction error. -/
def Error.message : Error → String
  | .mnemonicUnknown name => s!"mnemonic unknown: {name.display}"
  | .mnemonicAbsent => "mnemonic unknown"
  | .operandCount name takes given =>
    s!"wrong operand count: {name.display} takes {plain takes}, not {plain given}"
  | .operandMissing => "operand missing"
  | .operandMalformed => "operand malformed"
  | .operand index text cause =>
    s!"operand {shown (index + 1)} '{text.display}' {cause.message}"
  | .notRegister word => s!"'{word.display}' is not a register"
  | .notNumber word => s!"'{word.display}' is not a number"
  | .notLabel word => s!"'{word.display}' is not a valid label"
  | .immediateRange value least greatest =>
    s!"immediate {shown value.toInt} out of range [{shown least.toInt}, {shown greatest.toInt}]"
  | .targetAlign value => s!"jump target not word aligned: {hexed value.toInt}"
  | .pseudoWord name => s!"pseudo-instruction has no encoding: {name.display}"
  | .badWord word => s!"bad instruction 0x{hex8 word.toNat}"

/-! ### Operands as text -/

/-- A resolver gives the value of an operand word; `none` is for a word that may be a label. -/
abbrev Resolver := Text → Except Error (Option Int64)

/-- The resolver that knows numeric literals only. A word that is neither a number nor a label is an
    error. -/
def literal : Resolver := fun word =>
  match Numeral.number? word with
  | some v => .ok (some v)
  | none => if word.isLabel then .ok none else .error (.notNumber word)

/-- The value of an operand that has to be a number. -/
def numberOf (resolve : Resolver) (word : Text) : Except Error Int64 :=
  match resolve word with
  | .error e => .error e
  | .ok (some v) => .ok v
  | .ok none => .error (.notNumber word)

/-- A register operand, read by the rule of its file. -/
def registerOf (find? : Text → Option UInt8) (word : Text) : Except Error UInt8 :=
  match find? word with
  | some n => .ok n
  | none => .error (.notRegister word)

/-- The text before and after the last opening parenthesis. -/
def cutLastParen? (arg : Text) : Option (Text × Text) :=
  let tail := (arg.reverse.takeWhile (· ≠ ascii '(')).reverse
  if arg.contains (ascii '(') then some (arg.take (arg.length - tail.length - 1), tail) else none

/-- An operand of the form `outer(inner)`: both parts, trimmed. -/
def cutIndexed? (arg : Text) : Option (Text × Text) :=
  match cutLastParen? arg with
  | some (outer, tail) =>
    if tail.getLast? = some (ascii ')') then some (Text.trim outer, Text.trim tail.dropLast) else none
  | none => none

/-- Fill the field of an operand of a given kind from its text. -/
def readOperand (resolve : Resolver) (kind : OperandKind) (arg : Text) (x : Instruction) :
    Except Error Instruction :=
  if arg.isEmpty then .error .operandMissing
  else
    match kind with
    | .rd => (registerOf Register.scalar? arg).map fun n => { x with rd := n }
    | .rs => (registerOf Register.scalar? arg).map fun n => { x with rs := n }
    | .rt => (registerOf Register.scalar? arg).map fun n => { x with rt := n }
    | .vd => (registerOf Register.vector? arg).map fun n => { x with rd := n }
    | .vs => (registerOf Register.vector? arg).map fun n => { x with rs := n }
    | .vt => (registerOf Register.vector? arg).map fun n => { x with rt := n }
    | .kd => (registerOf Register.kernel? arg).map fun n => { x with rd := n }
    | .kt => (registerOf Register.kernel? arg).map fun n => { x with rt := n }
    | .imm => (numberOf resolve arg).map fun v => { x with imm := v }
    | .target =>
      match resolve arg with
      | .error e => .error e
      | .ok (some v) => .ok { x with imm := v }
      | .ok none => if arg.isLabel then .ok { x with label := arg } else .error (.notLabel arg)
    | .mem =>
      match cutIndexed? arg with
      | none => .error .operandMalformed
      | some (outer, inner) =>
        match registerOf Register.scalar? inner with
        | .error e => .error e
        | .ok base =>
          if outer.isEmpty then .ok { x with rs := base }
          else (numberOf resolve outer).map fun v => { x with rs := base, imm := v }
    | .index =>
      match cutIndexed? arg with
      | none => .error .operandMalformed
      | some (outer, inner) =>
        match registerOf Register.scalar? inner with
        | .error e => .error e
        | .ok base => (registerOf Register.scalar? outer).map fun n => { x with rs := base, rt := n }
    | .unknown _ => .ok x

/-- Fill the fields of operands in order; `index` is the place of the first of them. -/
def readOperands (resolve : Resolver) :
    (index : Nat) → List OperandKind → List Text → Instruction → Except Error Instruction
  | index, kind :: kinds, arg :: args, x =>
    match readOperand resolve kind arg x with
    | .error e => .error (.operand index arg e)
    | .ok y => readOperands resolve (index + 1) kinds args y
  | _, _, _, x => .ok x

/-! ### Range of immediates -/

/-- The immediate of an instruction without a label fits its field; a jump target is word aligned
    besides. -/
def check (x : Instruction) : Except Error Unit :=
  if !x.label.isEmpty then .ok ()
  else if x.mnemonic.imm = .jump && x.imm &&& 3 ≠ 0 then .error (.targetAlign x.imm)
  else
    match x.mnemonic.imm.range? with
    | none => .ok ()
    | some (least, greatest) =>
      if x.imm < least || greatest < x.imm then .error (.immediateRange x.imm least greatest)
      else .ok ()

/-- Read an instruction line: a mnemonic, white space, and operands between commas. -/
def parse (tb : Table) (resolve : Resolver) (line : Text) : Except Error Instruction :=
  let (name, rest) := line.trim.splitWord
  match tb.lookup? name with
  | none => .error (.mnemonicUnknown name)
  | some m =>
    let args := rest.splitOperands
    if args.length ≠ m.operands.length then
      .error (.operandCount name m.operands.length args.length)
    else
      match readOperands resolve 0 m.operands args { mnemonic := m } with
      | .error e => .error e
      | .ok x => (check x).map fun _ => x

/-! ### Instructions as text -/

/-- The text of an operand of a given kind. A target is its label; without one a branch shows its
    offset in decimal and any other target its address in hexadecimal. -/
def operandText (x : Instruction) : OperandKind → Text
  | .rd => Register.scalarName x.rd
  | .rs => Register.scalarName x.rs
  | .rt => Register.scalarName x.rt
  | .vd => Register.vectorName x.rd
  | .vs => Register.vectorName x.rs
  | .vt => Register.vectorName x.rt
  | .kd => Register.kernelName x.rd
  | .kt => Register.kernelName x.rt
  | .imm => Numeral.decimal x.imm.toInt
  | .target =>
    if !x.label.isEmpty then x.label
    else if x.mnemonic.format = .i then Numeral.decimal x.imm.toInt
    else Numeral.marked x.imm.toInt
  | .mem => Numeral.decimal x.imm.toInt ++ [ascii '('] ++ Register.scalarName x.rs ++ [ascii ')']
  | .index => Register.scalarName x.rt ++ [ascii '('] ++ Register.scalarName x.rs ++ [ascii ')']
  | .unknown _ => []

/-- The instruction in assembler text. -/
def render (x : Instruction) : Text :=
  if x.mnemonic.operands.isEmpty then x.mnemonic.name
  else
    x.mnemonic.name ++ [ascii ' '] ++
      Text.join (Text.ofString ", ") (x.mnemonic.operands.map x.operandText)

/-- The text of an instruction that may be absent. -/
def renderOptional : Option Instruction → Text
  | some x => x.render
  | none => Text.ofString "<nil>"

/-! ### Instructions as words -/

/-- The word of a real instruction whose immediate fits. An immediate that a label stands for is left
    zero. -/
def encode (x : Instruction) : Except Error Word :=
  match check x with
  | .error e => .error e
  | .ok () =>
    let imm : UInt64 := if x.label.isEmpty then x.imm.toUInt64 else 0
    let m := x.mnemonic
    match m.format with
    | .r => .ok (Word.ofR m.opcode m.func x.rd x.rs x.rt)
    | .i => .ok (Word.ofI m.opcode x.rt x.rs imm.toUInt16)
    | .j => .ok (Word.ofJ m.opcode (imm >>> 2).toUInt32)
    | .ei => .ok (Word.ofEI m.opcode m.func.toUInt8 x.rd imm.toUInt16)
    | .pseudo | .unknown _ => .error (.pseudoWord m.name)

/-- The word of an instruction that may be absent. -/
def encodeOptional : Option Instruction → Except Error Word
  | some x => x.encode
  | none => .error .mnemonicAbsent

/-- A short immediate as its mnemonic extends it. -/
def extendImmI (kind : ImmediateKind) (imm : UInt16) : Int64 :=
  match kind with
  | .signed | .branch => signExtend imm.toUInt64 15
  | _ => imm.toUInt64.toInt64

/-- The instruction of a word. Fields that its layout does not have are zero. -/
def decode (tb : Table) (w : Word) : Except Error Instruction :=
  match tb.format? w.opcode with
  | none => .error (.badWord w)
  | some format =>
    let func : UInt16 := match format with
      | .r => w.funcR
      | .ei => w.funcEI.toUInt16
      | _ => 0
    match tb.byCode? w.opcode func with
    | none => .error (.badWord w)
    | some m =>
      match format with
      | .r => .ok { mnemonic := m, rd := w.fieldD, rs := w.fieldS, rt := w.fieldT }
      | .ei => .ok { mnemonic := m, rd := w.fieldD, imm := w.immEI.toUInt64.toInt64 }
      | .i => .ok { mnemonic := m, rt := w.fieldD, rs := w.fieldS, imm := extendImmI m.imm w.immI }
      | .j =>
        if m.operands.isEmpty then .ok { mnemonic := m }
        else .ok { mnemonic := m, imm := (w.addrJ.toUInt64 <<< 2).toInt64 }
      | .pseudo | .unknown _ => .ok { mnemonic := m }

end Instruction

end VectorRisc
