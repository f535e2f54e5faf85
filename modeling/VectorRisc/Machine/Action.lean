/-
Module: VectorRisc.Machine.Action
Layer: Machine
Purpose: What each instruction does, as data: a shape that says where operands come from and where the
  result goes, with the function that makes it. The immediate forms share the functions of the register
  forms, and vector lanes those of the scalar registers.
Imports: VectorRisc.Machine.Arithmetic, VectorRisc.Machine.Floating, VectorRisc.Machine.Lanes,
  VectorRisc.Text.Basic
Trusted boundary: none
Main exports: Addressing, Action, Action.all
Open obligations: none
-/
import VectorRisc.Machine.Arithmetic
import VectorRisc.Machine.Floating
import VectorRisc.Machine.Lanes
import VectorRisc.Text.Basic

namespace VectorRisc

/-- How an access finds its address, and which register it moves. -/
inductive Addressing where
  /-- `rs` plus the immediate; the register is `rt`. -/
  | offset
  /-- `rs` plus `rt` times the size of the access; the register is `rd`. -/
  | scaled
deriving DecidableEq, Repr, Inhabited

/-- What an instruction does. -/
inductive Action where
  /-- `rd` becomes `f rs rt`. -/
  | compute (f : UInt64 → UInt64 → UInt64)
  /-- `rt` becomes `f rs imm`. -/
  | computeImmediate (f : UInt64 → UInt64 → UInt64)
  /-- The pair `hi`, `lo` becomes `f rs rt`. -/
  | computePair (f : UInt64 → UInt64 → UInt64 × UInt64)
  | fromHi
  | fromLo
  | toHi
  | toLo
  /-- Go to the target if the test holds of `rs` and `rt`. -/
  | branch (test : UInt64 → UInt64 → Bool)
  /-- Go to the target in the region of the instruction. -/
  | jump (link : Bool)
  /-- Go to `rs`. -/
  | jumpRegister (link : Bool)
  /-- Put the immediate into a sixteen-bit slice of `rd`. -/
  | slice
  | load (form : Addressing) (width : Nat) (signed : Bool)
  | store (form : Addressing) (width : Nat)
  | fromKernel
  | toKernel
  /-- `vd` becomes `f vs vt`. -/
  | lanes (f : Lanes → Lanes → Lanes)
  /-- `vd` becomes `f vs rt`. -/
  | lanesBy (f : Lanes → UInt64 → Lanes)
  /-- `rd` becomes `f vs`. -/
  | reduce (f : Lanes → UInt64)
  /-- `vd` becomes `f rs`. -/
  | broadcast (f : UInt64 → Lanes)
  /-- `rd` becomes `f vs rt`. -/
  | pick (f : Lanes → UInt64 → UInt64)
  /-- `vd` becomes `f vd rt rs`. -/
  | replace (f : Lanes → UInt64 → UInt64 → Lanes)
  | loadLanes (form : Addressing)
  | storeLanes (form : Addressing)
  | service
  | idle
deriving Inhabited

namespace Action

open Arithmetic

/-! ### Scalar -/

/-- Results of two scalar registers. -/
def scalars : List (String × Action) :=
  [("add", compute (· + ·)),
    ("sub", compute (· - ·)),
    ("and", compute (· &&& ·)),
    ("or", compute (· ||| ·)),
    ("xor", compute (· ^^^ ·)),
    ("nor", compute fun a b => ~~~(a ||| b)),
    ("slt", compute fun a b => flag64 (less64 a b)),
    ("sltu", compute fun a b => flag64 (a < b)),
    ("sll", compute shiftLeft64),
    ("srl", compute shiftRight64),
    ("sra", compute shiftSigned64),
    ("addw", compute (onLow (· + ·))),
    ("subw", compute (onLow (· - ·))),
    ("mulw", compute (onLow (· * ·))),
    ("sllw", compute (onLow shiftLeft32)),
    ("srlw", compute (onLow shiftRight32)),
    ("sraw", compute (onLow shiftSigned32)),
    ("divw", compute (onLow fun a b => (divide32 a b).1)),
    ("remw", compute (onLow fun a b => (divide32 a b).2)),
    ("mul", compute (· * ·)),
    ("mulh", compute productHigh),
    ("mulhu", compute productHighUnsigned),
    ("div", compute fun a b => (divide64 a b).1),
    ("divu", compute fun a b => (divideUnsigned64 a b).1),
    ("rem", compute fun a b => (divide64 a b).2),
    ("remu", compute fun a b => (divideUnsigned64 a b).2)]

/-- Results in the pair `hi`, `lo`: a product has its high half in `hi`, a quotient its remainder. -/
def pairs : List (String × Action) :=
  [("mult", computePair fun a b => (productHigh a b, a * b)),
    ("multu", computePair fun a b => (productHighUnsigned a b, a * b)),
    ("divm", computePair fun a b => ((divide64 a b).2, (divide64 a b).1)),
    ("divmu", computePair fun a b => ((divideUnsigned64 a b).2, (divideUnsigned64 a b).1)),
    ("mfhi", fromHi),
    ("mflo", fromLo),
    ("mthi", toHi),
    ("mtlo", toLo)]

/-- Jumps, kernel registers, slices, services and the empty instruction. -/
def controls : List (String × Action) :=
  [("jr", jumpRegister false),
    ("jalr", jumpRegister true),
    ("j", jump false),
    ("jal", jump true),
    ("mfk", fromKernel),
    ("mtk", toKernel),
    ("li.0", slice),
    ("li.1", slice),
    ("li.2", slice),
    ("li.3", slice),
    ("syscall", service),
    ("nop", idle)]

/-- Loads and stores at a scaled index. -/
def scaledAccesses : List (String × Action) :=
  [("lbx", load .scaled 1 true),
    ("lbux", load .scaled 1 false),
    ("lhx", load .scaled 2 true),
    ("lhux", load .scaled 2 false),
    ("lwx", load .scaled 4 true),
    ("lwux", load .scaled 4 false),
    ("ldx", load .scaled 8 false),
    ("sbx", store .scaled 1),
    ("shx", store .scaled 2),
    ("swx", store .scaled 4),
    ("sdx", store .scaled 8)]

/-- Loads and stores at an offset. -/
def offsetAccesses : List (String × Action) :=
  [("lb", load .offset 1 true),
    ("lbu", load .offset 1 false),
    ("lh", load .offset 2 true),
    ("lhu", load .offset 2 false),
    ("lw", load .offset 4 true),
    ("lwu", load .offset 4 false),
    ("ld", load .offset 8 false),
    ("sb", store .offset 1),
    ("sh", store .offset 2),
    ("sw", store .offset 4),
    ("sd", store .offset 8)]

/-- Results of a scalar register and an immediate. -/
def immediates : List (String × Action) :=
  [("addi", computeImmediate (· + ·)),
    ("addiu", computeImmediate (· + ·)),
    ("addiw", computeImmediate (onLow (· + ·))),
    ("andi", computeImmediate (· &&& ·)),
    ("andiu", computeImmediate (· &&& ·)),
    ("ori", computeImmediate (· ||| ·)),
    ("oriu", computeImmediate (· ||| ·)),
    ("xori", computeImmediate (· ^^^ ·)),
    ("xoriu", computeImmediate (· ^^^ ·)),
    ("slti", computeImmediate fun a b => flag64 (less64 a b)),
    ("sltiu", computeImmediate fun a b => flag64 (a < b)),
    ("slli", computeImmediate shiftLeft64),
    ("srli", computeImmediate shiftRight64),
    ("srai", computeImmediate shiftSigned64),
    ("slliw", computeImmediate (onLow shiftLeft32)),
    ("srliw", computeImmediate (onLow shiftRight32)),
    ("sraiw", computeImmediate (onLow shiftSigned32))]

/-- Branches. -/
def branches : List (String × Action) :=
  [("beq", branch fun a b => a = b),
    ("bne", branch fun a b => a ≠ b),
    ("blt", branch less64),
    ("bge", branch fun a b => !less64 a b),
    ("bltu", branch fun a b => a < b),
    ("bgeu", branch fun a b => b ≤ a)]

/-! ### Vector -/

/-- Lane-wise arithmetic. -/
def laneArithmetic : List (String × Action) :=
  [("vaddi32", lanes (Lanes.zip32 (· + ·))),
    ("vaddi64", lanes (Lanes.zip64 (· + ·))),
    ("vsubi32", lanes (Lanes.zip32 (· - ·))),
    ("vsubi64", lanes (Lanes.zip64 (· - ·))),
    ("vmuli32", lanes (Lanes.zip32 (· * ·))),
    ("vmuli64", lanes (Lanes.zip64 (· * ·))),
    ("vdivi32", lanes (Lanes.zip32 fun a b => (divide32 a b).1)),
    ("vdivi64", lanes (Lanes.zip64 fun a b => (divide64 a b).1)),
    ("vaddf32", lanes (Lanes.zip32 (Floating.on32 (· + ·)))),
    ("vaddf64", lanes (Lanes.zip64 (Floating.on64 (· + ·)))),
    ("vsubf32", lanes (Lanes.zip32 (Floating.on32 (· - ·)))),
    ("vsubf64", lanes (Lanes.zip64 (Floating.on64 (· - ·)))),
    ("vmulf32", lanes (Lanes.zip32 (Floating.on32 (· * ·)))),
    ("vmulf64", lanes (Lanes.zip64 (Floating.on64 (· * ·)))),
    ("vdivf32", lanes (Lanes.zip32 (Floating.on32 (· / ·)))),
    ("vdivf64", lanes (Lanes.zip64 (Floating.on64 (· / ·))))]

/-- Lane-wise logic and shifts. -/
def laneBits : List (String × Action) :=
  [("vand", lanes (Lanes.zip64 (· &&& ·))),
    ("vor", lanes (Lanes.zip64 (· ||| ·))),
    ("vxor", lanes (Lanes.zip64 (· ^^^ ·))),
    ("vnot", lanes fun v _ => v.map64 (~~~ ·)),
    ("vsll32", lanesBy fun v amount => v.map32 (shiftLeft32 · amount.toUInt32)),
    ("vsll64", lanesBy fun v amount => v.map64 (shiftLeft64 · amount)),
    ("vsrl32", lanesBy fun v amount => v.map32 (shiftRight32 · amount.toUInt32)),
    ("vsrl64", lanesBy fun v amount => v.map64 (shiftRight64 · amount)),
    ("vsra32", lanesBy fun v amount => v.map32 (shiftSigned32 · amount.toUInt32)),
    ("vsra64", lanesBy fun v amount => v.map64 (shiftSigned64 · amount)),
    ("vsllv32", lanes (Lanes.zip32 shiftLeft32)),
    ("vsllv64", lanes (Lanes.zip64 shiftLeft64)),
    ("vsrlv32", lanes (Lanes.zip32 shiftRight32)),
    ("vsrlv64", lanes (Lanes.zip64 shiftRight64)),
    ("vsrav32", lanes (Lanes.zip32 shiftSigned32)),
    ("vsrav64", lanes (Lanes.zip64 shiftSigned64))]

/-- Lane-wise comparisons. -/
def laneTests : List (String × Action) :=
  [("vceqi32", lanes (Lanes.zip32 fun a b => flag32 (a = b))),
    ("vceqi64", lanes (Lanes.zip64 fun a b => flag64 (a = b))),
    ("vclti32", lanes (Lanes.zip32 fun a b => flag32 (less32 a b))),
    ("vclti64", lanes (Lanes.zip64 fun a b => flag64 (less64 a b))),
    ("vclei32", lanes (Lanes.zip32 fun a b => flag32 (atMost32 a b))),
    ("vclei64", lanes (Lanes.zip64 fun a b => flag64 (atMost64 a b))),
    ("vceqf32", lanes (Lanes.zip32 fun a b => flag32 (Floating.test32 (· == ·) a b))),
    ("vceqf64", lanes (Lanes.zip64 fun a b => flag64 (Floating.test64 (· == ·) a b))),
    ("vcltf32", lanes (Lanes.zip32 fun a b => flag32 (Floating.test32 (fun x y => x < y) a b))),
    ("vcltf64", lanes (Lanes.zip64 fun a b => flag64 (Floating.test64 (fun x y => x < y) a b))),
    ("vclef32", lanes (Lanes.zip32 fun a b => flag32 (Floating.test32 (fun x y => x ≤ y) a b))),
    ("vclef64", lanes (Lanes.zip64 fun a b => flag64 (Floating.test64 (fun x y => x ≤ y) a b)))]

/-- Conversions of lanes between integers and floating-point numbers. -/
def laneConversions : List (String × Action) :=
  [("vcvti32f32", lanes fun v _ => v.map32 Floating.ofInt32),
    ("vcvti64f64", lanes fun v _ => v.map64 Floating.ofInt64),
    ("vcvtf32i32", lanesBy fun v mode => v.map32 (Floating.toInt32 mode)),
    ("vcvtf64i64", lanesBy fun v mode => v.map64 (Floating.toInt64 mode))]

/-- Reductions of all lanes to one value. -/
def reductions : List (String × Action) :=
  [("vsumi32", reduce fun v => v.list32.foldl (fun sum w => sum + extend32 w) 0),
    ("vsumi64", reduce fun v => v.list64.foldl (· + ·) 0),
    ("vsumf32", reduce fun v => (Floating.sum32 v.list32).toUInt64),
    ("vsumf64", reduce fun v => Floating.sum64 v.list64),
    ("vlsb32", reduce fun v => Lanes.mask (v.list32.map fun w => w &&& 1 ≠ 0)),
    ("vlsb64", reduce fun v => Lanes.mask (v.list64.map fun w => w &&& 1 ≠ 0)),
    ("vmsb32", reduce fun v => Lanes.mask (v.list32.map fun (w : UInt32) => w >>> 31 ≠ 0)),
    ("vmsb64", reduce fun v => Lanes.mask (v.list64.map fun (w : UInt64) => w >>> 63 ≠ 0))]

/-- Moves of lanes and of whole vector registers. -/
def laneMoves : List (String × Action) :=
  [("vshuf32", lanesBy Lanes.shuffle32),
    ("vshuf64", lanesBy Lanes.shuffle64),
    ("vmov", lanes fun v _ => v),
    ("vbcst32", broadcast fun value => Lanes.of32 fun _ => value.toUInt32),
    ("vbcst64", broadcast fun value => Lanes.of64 fun _ => value),
    ("vget32", pick fun v n => extend32 (v.get32 (Lanes.index32 n))),
    ("vget64", pick fun v n => v.get64 (Lanes.index64 n)),
    ("vset32", replace fun v n value => v.set32 (Lanes.index32 n) value.toUInt32),
    ("vset64", replace fun v n value => v.set64 (Lanes.index64 n) value),
    ("vldx", loadLanes .scaled),
    ("vstx", storeLanes .scaled),
    ("vld", loadLanes .offset),
    ("vst", storeLanes .offset)]

/-- What every instruction of the machine does, by name. -/
def all : List (Text × Action) :=
  (scalars ++ pairs ++ controls ++ scaledAccesses ++ offsetAccesses ++ immediates ++ branches ++
    laneArithmetic ++ laneBits ++ laneTests ++ laneConversions ++ reductions ++ laneMoves).map
    fun (name, action) => (Text.ofString name, action)

end Action

end VectorRisc
