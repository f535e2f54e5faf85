/-
Module: VectorRisc.Instruction.Register
Layer: Instruction
Purpose: The three register files by name: 32 scalar registers with conventional names, 32 vector
  registers `%y0` to `%y31`, and six kernel registers. A scalar register is also known by its number,
  as in `%r10`.
Imports: VectorRisc.Numeral.Integer
Trusted boundary: none
Main exports: Register.scalarName, Register.vectorName, Register.kernelName, Register.scalar?,
  Register.vector?, Register.kernel?
Open obligations: none
-/
import VectorRisc.Numeral.Integer

namespace VectorRisc

namespace Register

/-! ### Numbers with a role -/

/-- Reads as zero and ignores writes. -/
def zero : UInt8 := 0

/-- Return value, and the number of the service a system call asks for. -/
def v0 : UInt8 := 2

/-- The first of six argument registers. -/
def a0 : UInt8 := 4

/-- The global pointer. -/
def gp : UInt8 := 28

/-- The stack pointer. -/
def sp : UInt8 := 29

/-- The frame pointer. -/
def fp : UInt8 := 30

/-- The return address. -/
def ra : UInt8 := 31

/-- The kernel register that counts clocks. -/
def time : UInt8 := 4

/-! ### Names -/

/-- The conventional names of the scalar registers, by number. -/
def scalarNames : List Text :=
  ["zero", "at", "v0", "v1",
    "a0", "a1", "a2", "a3", "a4", "a5",
    "t0", "t1", "t2", "t3", "t4", "t5", "t6", "t7", "t8", "t9",
    "s0", "s1", "s2", "s3", "s4", "s5", "s6", "s7",
    "gp", "sp", "fp", "ra"].map Text.ofString

/-- The names of the kernel registers, by number. -/
def kernelNames : List Text :=
  ["epc", "ie", "ip", "cause", "time", "timecmp"].map Text.ofString

/-- The number of vector registers. -/
def vectorCount : Nat := 32

/-- The conventional name of a scalar register; the number is taken modulo 32. -/
def scalarName (n : UInt8) : Text :=
  ascii '%' :: (scalarNames[n.toNat % 32]?).getD []

/-- The name of a vector register; the number is taken modulo 32. -/
def vectorName (n : UInt8) : Text :=
  ascii '%' :: ascii 'y' :: Numeral.natural 10 (n.toNat % 32)

/-- The name of a kernel register; a number that has none is shown as it is. -/
def kernelName (n : UInt8) : Text :=
  match kernelNames[n.toNat]? with
  | some name => ascii '%' :: name
  | none => ascii '%' :: ascii 'k' :: Numeral.natural 10 n.toNat

/-- The name behind the percent sign of a register. -/
def bareName? : Text → Option Text
  | b :: rest => if b = ascii '%' then some rest else none
  | [] => none

/-- The place of a name in a list of names. -/
def indexOf? (names : List Text) (name : Text) : Option UInt8 :=
  (names.findIdx? (· = name)).map UInt8.ofNat

/-- The numbered names `r0` to `r31` of the scalar registers. -/
def numberedNames : List Text :=
  (List.range 32).map fun n => ascii 'r' :: Numeral.natural 10 n

/-- The scalar register of a name such as `%t0` or `%r10`. -/
def scalar? (word : Text) : Option UInt8 :=
  match bareName? word with
  | none => none
  | some name => (indexOf? scalarNames name).or (indexOf? numberedNames name)

/-- The vector register of a name such as `%y7`; leading zeros do not matter. -/
def vector? (word : Text) : Option UInt8 :=
  match Text.after? (Text.ofString "%y") word with
  | none => none
  | some digits =>
    match Numeral.readPlain 255 digits with
    | .ok n => if n < vectorCount then some (UInt8.ofNat n) else none
    | .error _ => none

/-- The kernel register of a name such as `%epc`. -/
def kernel? (word : Text) : Option UInt8 :=
  match bareName? word with
  | none => none
  | some name => indexOf? kernelNames name

end Register

end VectorRisc
