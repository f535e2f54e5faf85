/-
Module: VectorRisc.Instruction.Set
Layer: Instruction
Purpose: The instruction set of the machine: every mnemonic with its layout, codes and operands, in
  families. Scalar register instructions share opcode 0, vector ones opcode 1 and immediate slices
  opcode 2; every other instruction has an opcode of its own.
Imports: VectorRisc.Instruction.Table
Trusted boundary: the rows are those of the table that the machine is built from, one for one and in its
  order; what makes a table sound is proved of them in `VectorRisc.Proofs.Instruction.Code`
Main exports: Mnemonic.standard, Table.standard
Open obligations: none
-/
import VectorRisc.Instruction.Table

namespace VectorRisc

namespace Mnemonic

/-! ### Shapes -/

/-- A scalar instruction of the register layout. -/
def scalar (name : String) (func : UInt16) (operands : List OperandKind) : Mnemonic :=
  ⟨Text.ofString name, .r, 0x00, func, operands, .none⟩

/-- A vector instruction of the register layout. -/
def vector (name : String) (func : UInt16) (operands : List OperandKind) : Mnemonic :=
  ⟨Text.ofString name, .r, 0x01, func, operands, .none⟩

/-- An immediate slice. -/
def slice (name : String) (func : UInt16) (operands : List OperandKind) : Mnemonic :=
  ⟨Text.ofString name, .ei, 0x02, func, operands, .slice⟩

/-- An instruction of the jump layout; one without operands has no immediate either. -/
def jump (name : String) (opcode : UInt8) (operands : List OperandKind) : Mnemonic :=
  ⟨Text.ofString name, .j, opcode, 0, operands, if operands.isEmpty then .none else .jump⟩

/-- An instruction with a short immediate. -/
def short (name : String) (opcode : UInt8) (imm : ImmediateKind) (operands : List OperandKind) :
    Mnemonic :=
  ⟨Text.ofString name, .i, opcode, 0, operands, imm⟩

/-- A mnemonic that the assembler expands. -/
def expanded (name : String) (operands : List OperandKind) : Mnemonic :=
  ⟨Text.ofString name, .pseudo, 0, 0, operands, .none⟩

/-! ### Families -/

/-- Arithmetic, logic and shifts on scalar registers, in 64 and in 32 bits. -/
def scalarArithmetic : List Mnemonic :=
  [scalar "add" 0x000 [.rd, .rs, .rt],
    scalar "sub" 0x001 [.rd, .rs, .rt],
    scalar "and" 0x002 [.rd, .rs, .rt],
    scalar "or" 0x003 [.rd, .rs, .rt],
    scalar "xor" 0x004 [.rd, .rs, .rt],
    scalar "nor" 0x005 [.rd, .rs, .rt],
    scalar "slt" 0x006 [.rd, .rs, .rt],
    scalar "sltu" 0x007 [.rd, .rs, .rt],
    scalar "sll" 0x008 [.rd, .rs, .rt],
    scalar "srl" 0x009 [.rd, .rs, .rt],
    scalar "sra" 0x00a [.rd, .rs, .rt],
    scalar "addw" 0x010 [.rd, .rs, .rt],
    scalar "subw" 0x011 [.rd, .rs, .rt],
    scalar "mulw" 0x012 [.rd, .rs, .rt],
    scalar "sllw" 0x013 [.rd, .rs, .rt],
    scalar "srlw" 0x014 [.rd, .rs, .rt],
    scalar "sraw" 0x015 [.rd, .rs, .rt],
    scalar "divw" 0x016 [.rd, .rs, .rt],
    scalar "remw" 0x017 [.rd, .rs, .rt],
    scalar "mul" 0x020 [.rd, .rs, .rt],
    scalar "mulh" 0x021 [.rd, .rs, .rt],
    scalar "mulhu" 0x022 [.rd, .rs, .rt],
    scalar "div" 0x023 [.rd, .rs, .rt],
    scalar "divu" 0x024 [.rd, .rs, .rt],
    scalar "rem" 0x025 [.rd, .rs, .rt],
    scalar "remu" 0x026 [.rd, .rs, .rt]]

/-- The wide multiply and divide pair and the moves to and from it. -/
def hiLo : List Mnemonic :=
  [scalar "mult" 0x028 [.rs, .rt],
    scalar "multu" 0x029 [.rs, .rt],
    scalar "divm" 0x02a [.rs, .rt],
    scalar "divmu" 0x02b [.rs, .rt],
    scalar "mfhi" 0x030 [.rd],
    scalar "mflo" 0x031 [.rd],
    scalar "mthi" 0x032 [.rs],
    scalar "mtlo" 0x033 [.rs]]

/-- Jumps to an address in a register. -/
def registerJumps : List Mnemonic :=
  [scalar "jr" 0x040 [.rs],
    scalar "jalr" 0x041 [.rs]]

/-- Loads and stores at a base plus an index scaled by the access size. -/
def scaledAccess : List Mnemonic :=
  [scalar "lbx" 0x050 [.rd, .index],
    scalar "lbux" 0x051 [.rd, .index],
    scalar "lhx" 0x052 [.rd, .index],
    scalar "lhux" 0x053 [.rd, .index],
    scalar "lwx" 0x054 [.rd, .index],
    scalar "lwux" 0x055 [.rd, .index],
    scalar "ldx" 0x056 [.rd, .index],
    scalar "sbx" 0x058 [.rd, .index],
    scalar "shx" 0x059 [.rd, .index],
    scalar "swx" 0x05a [.rd, .index],
    scalar "sdx" 0x05b [.rd, .index]]

/-- Moves from and to a kernel register. -/
def kernelMoves : List Mnemonic :=
  [scalar "mfk" 0x060 [.rd, .kt],
    scalar "mtk" 0x061 [.kd, .rs]]

/-- Lane-wise integer and float arithmetic. -/
def vectorArithmetic : List Mnemonic :=
  [vector "vaddi32" 0x000 [.vd, .vs, .vt],
    vector "vaddi64" 0x001 [.vd, .vs, .vt],
    vector "vsubi32" 0x002 [.vd, .vs, .vt],
    vector "vsubi64" 0x003 [.vd, .vs, .vt],
    vector "vmuli32" 0x004 [.vd, .vs, .vt],
    vector "vmuli64" 0x005 [.vd, .vs, .vt],
    vector "vdivi32" 0x006 [.vd, .vs, .vt],
    vector "vdivi64" 0x007 [.vd, .vs, .vt],
    vector "vaddf32" 0x008 [.vd, .vs, .vt],
    vector "vaddf64" 0x009 [.vd, .vs, .vt],
    vector "vsubf32" 0x00a [.vd, .vs, .vt],
    vector "vsubf64" 0x00b [.vd, .vs, .vt],
    vector "vmulf32" 0x00c [.vd, .vs, .vt],
    vector "vmulf64" 0x00d [.vd, .vs, .vt],
    vector "vdivf32" 0x00e [.vd, .vs, .vt],
    vector "vdivf64" 0x00f [.vd, .vs, .vt]]

/-- Bitwise logic on whole vector registers. -/
def vectorBitwise : List Mnemonic :=
  [vector "vand" 0x010 [.vd, .vs, .vt],
    vector "vor" 0x011 [.vd, .vs, .vt],
    vector "vxor" 0x012 [.vd, .vs, .vt],
    vector "vnot" 0x013 [.vd, .vs]]

/-- Lane-wise shifts, by a scalar register and by the lanes of a vector register. -/
def vectorShifts : List Mnemonic :=
  [vector "vsll32" 0x018 [.vd, .vs, .rt],
    vector "vsll64" 0x019 [.vd, .vs, .rt],
    vector "vsrl32" 0x01a [.vd, .vs, .rt],
    vector "vsrl64" 0x01b [.vd, .vs, .rt],
    vector "vsra32" 0x01c [.vd, .vs, .rt],
    vector "vsra64" 0x01d [.vd, .vs, .rt],
    vector "vsllv32" 0x020 [.vd, .vs, .vt],
    vector "vsllv64" 0x021 [.vd, .vs, .vt],
    vector "vsrlv32" 0x022 [.vd, .vs, .vt],
    vector "vsrlv64" 0x023 [.vd, .vs, .vt],
    vector "vsrav32" 0x024 [.vd, .vs, .vt],
    vector "vsrav64" 0x025 [.vd, .vs, .vt]]

/-- Lane-wise compares; a lane becomes 1 or 0. -/
def vectorCompares : List Mnemonic :=
  [vector "vceqi32" 0x030 [.vd, .vs, .vt],
    vector "vceqi64" 0x031 [.vd, .vs, .vt],
    vector "vclti32" 0x032 [.vd, .vs, .vt],
    vector "vclti64" 0x033 [.vd, .vs, .vt],
    vector "vclei32" 0x034 [.vd, .vs, .vt],
    vector "vclei64" 0x035 [.vd, .vs, .vt],
    vector "vceqf32" 0x036 [.vd, .vs, .vt],
    vector "vceqf64" 0x037 [.vd, .vs, .vt],
    vector "vcltf32" 0x038 [.vd, .vs, .vt],
    vector "vcltf64" 0x039 [.vd, .vs, .vt],
    vector "vclef32" 0x03a [.vd, .vs, .vt],
    vector "vclef64" 0x03b [.vd, .vs, .vt]]

/-- Lane-wise conversions between integer and float. -/
def vectorConversions : List Mnemonic :=
  [vector "vcvti32f32" 0x040 [.vd, .vs],
    vector "vcvti64f64" 0x041 [.vd, .vs],
    vector "vcvtf32i32" 0x042 [.vd, .vs, .rt],
    vector "vcvtf64i64" 0x043 [.vd, .vs, .rt]]

/-- Reductions of the lanes to a scalar register. -/
def vectorReductions : List Mnemonic :=
  [vector "vsumi32" 0x048 [.rd, .vs],
    vector "vsumi64" 0x049 [.rd, .vs],
    vector "vsumf32" 0x04a [.rd, .vs],
    vector "vsumf64" 0x04b [.rd, .vs],
    vector "vlsb32" 0x050 [.rd, .vs],
    vector "vlsb64" 0x051 [.rd, .vs],
    vector "vmsb32" 0x052 [.rd, .vs],
    vector "vmsb64" 0x053 [.rd, .vs]]

/-- Shuffles, moves and single lanes. -/
def vectorMoves : List Mnemonic :=
  [vector "vshuf32" 0x058 [.vd, .vs, .rt],
    vector "vshuf64" 0x059 [.vd, .vs, .rt],
    vector "vmov" 0x060 [.vd, .vs],
    vector "vbcst32" 0x061 [.vd, .rs],
    vector "vbcst64" 0x062 [.vd, .rs],
    vector "vget32" 0x063 [.rd, .vs, .rt],
    vector "vget64" 0x064 [.rd, .vs, .rt],
    vector "vset32" 0x065 [.vd, .rs, .rt],
    vector "vset64" 0x066 [.vd, .rs, .rt]]

/-- Vector loads and stores at a scaled index. -/
def vectorScaledAccess : List Mnemonic :=
  [vector "vldx" 0x070 [.vd, .index],
    vector "vstx" 0x071 [.vd, .index]]

/-- The four sixteen-bit slices of a 64-bit value. -/
def immediateSlices : List Mnemonic :=
  [slice "li.0" 0 [.rd, .target],
    slice "li.1" 1 [.rd, .target],
    slice "li.2" 2 [.rd, .target],
    slice "li.3" 3 [.rd, .target]]

/-- Jumps, system calls and the empty instruction. -/
def control : List Mnemonic :=
  [jump "j" 0x03 [.target],
    jump "jal" 0x04 [.target],
    jump "syscall" 0x05 [],
    jump "nop" 0x06 []]

/-- Arithmetic with a short immediate. -/
def immediateArithmetic : List Mnemonic :=
  [short "addi" 0x08 .signed [.rt, .rs, .imm],
    short "addiu" 0x09 .unsigned [.rt, .rs, .imm],
    short "addiw" 0x0a .signed [.rt, .rs, .imm],
    short "andi" 0x0b .signed [.rt, .rs, .imm],
    short "andiu" 0x0c .unsigned [.rt, .rs, .imm],
    short "ori" 0x0d .signed [.rt, .rs, .imm],
    short "oriu" 0x0e .unsigned [.rt, .rs, .imm],
    short "xori" 0x0f .signed [.rt, .rs, .imm],
    short "xoriu" 0x10 .unsigned [.rt, .rs, .imm],
    short "slti" 0x11 .signed [.rt, .rs, .imm],
    short "sltiu" 0x12 .unsigned [.rt, .rs, .imm],
    short "slli" 0x13 .shift64 [.rt, .rs, .imm],
    short "srli" 0x14 .shift64 [.rt, .rs, .imm],
    short "srai" 0x15 .shift64 [.rt, .rs, .imm],
    short "slliw" 0x16 .shift32 [.rt, .rs, .imm],
    short "srliw" 0x17 .shift32 [.rt, .rs, .imm],
    short "sraiw" 0x18 .shift32 [.rt, .rs, .imm]]

/-- Conditional branches relative to the next instruction. -/
def branches : List Mnemonic :=
  [short "beq" 0x20 .branch [.rs, .rt, .target],
    short "bne" 0x21 .branch [.rs, .rt, .target],
    short "blt" 0x22 .branch [.rs, .rt, .target],
    short "bge" 0x23 .branch [.rs, .rt, .target],
    short "bltu" 0x24 .branch [.rs, .rt, .target],
    short "bgeu" 0x25 .branch [.rs, .rt, .target]]

/-- Loads and stores at a base plus a short offset. -/
def offsetAccess : List Mnemonic :=
  [short "lb" 0x30 .signed [.rt, .mem],
    short "lbu" 0x31 .signed [.rt, .mem],
    short "lh" 0x32 .signed [.rt, .mem],
    short "lhu" 0x33 .signed [.rt, .mem],
    short "lw" 0x34 .signed [.rt, .mem],
    short "lwu" 0x35 .signed [.rt, .mem],
    short "ld" 0x36 .signed [.rt, .mem],
    short "sb" 0x38 .signed [.rt, .mem],
    short "sh" 0x39 .signed [.rt, .mem],
    short "sw" 0x3a .signed [.rt, .mem],
    short "sd" 0x3b .signed [.rt, .mem],
    short "vld" 0x3c .signed [.vt, .mem],
    short "vst" 0x3d .signed [.vt, .mem]]

/-- Mnemonics that stand for one or more real instructions. -/
def pseudoInstructions : List Mnemonic :=
  [expanded "not" [.rd, .rs],
    expanded "neg" [.rd, .rs],
    expanded "negw" [.rd, .rs],
    expanded "mov" [.rd, .rs],
    expanded "movw" [.rd, .rs],
    expanded "push" [.rs],
    expanded "pop" [.rd],
    expanded "ret" [],
    expanded "la" [.rd, .target],
    expanded "li" [.rd, .imm]]

/-- The whole instruction set, in order. -/
def standard : List Mnemonic :=
  scalarArithmetic ++ hiLo ++ registerJumps ++ scaledAccess ++ kernelMoves ++
    vectorArithmetic ++ vectorBitwise ++ vectorShifts ++ vectorCompares ++ vectorConversions
    ++ vectorReductions ++ vectorMoves ++ vectorScaledAccess ++ immediateSlices ++ control ++
    immediateArithmetic ++ branches ++ offsetAccess ++ pseudoInstructions

end Mnemonic

/-- The machine's instruction set as a table. -/
def Table.standard : Table := ⟨Mnemonic.standard⟩

end VectorRisc
