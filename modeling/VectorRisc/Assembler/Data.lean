/-
Module: VectorRisc.Assembler.Data
Layer: Assembler
Purpose: The directives of data segments: scalars, strings, space, alignment, and repetition of the last
  scalar. A value is checked before anything is written, so a directive that fails writes nothing.
Imports: VectorRisc.Assembler.State
Trusted boundary: none
Main exports: Assembler.segmentMax, Assembler.Scalar, Assembler.State.data
Open obligations: none
-/
import VectorRisc.Assembler.State

namespace VectorRisc

namespace Assembler

/-- The largest segment that is built, in bytes. -/
def segmentMax : Nat := 0x10000000

/-- The scalar directives. -/
inductive Scalar where
  | dword
  | word
  | half
  | byte
  | float
  | double
deriving DecidableEq, Repr, Inhabited

/-- The number of bytes of a scalar, which is its natural alignment too. -/
def Scalar.size : Scalar → Nat
  | .dword => 8
  | .word => 4
  | .half => 2
  | .byte => 1
  | .float => 4
  | .double => 8

/-- How the bytes of a string directive follow from its text. -/
inductive Encoding where
  | plain
  | terminated
  | utf16
deriving DecidableEq, Repr, Inhabited

/-- The directives of data segments. -/
inductive DataDirective where
  | scalar (kind : Scalar)
  | string (encoding : Encoding)
  | align
  | space
  | again
deriving DecidableEq, Repr, Inhabited

/-- The directives by name. -/
def dataDirectives : List (Text × DataDirective) :=
  [(".dword", .scalar .dword), (".word", .scalar .word), (".half", .scalar .half),
    (".byte", .scalar .byte), (".float", .scalar .float), (".double", .scalar .double),
    (".align", .align), (".space", .space), (".ascii", .string .plain),
    (".asciiz", .string .terminated), (".unicode", .string .utf16), (".repeat", .again)].map
    fun (name, d) => (Text.ofString name, d)

/-- The directive of a name. -/
def dataDirective? (name : Text) : Option DataDirective := dataDirectives.lookup name

/-- A count: a number that is not negative. -/
def count (args : Text) : Except Error Nat :=
  match Numeral.number? args with
  | none => .error (.instruction (.notNumber args))
  | some v => if v < 0 then .error (.negativeCount v) else .ok v.toUInt64.toNat

/-- The bytes of one scalar. An integer may be written signed or unsigned, as long as it fits. -/
def scalarBytes (kind : Scalar) (word : Text) : Except Error (List UInt8) :=
  match kind with
  | .float =>
    match Ieee.single.read word with
    | .ok pattern => .ok (Bytes.ofNat 4 pattern)
    | .error _ => .error (.floatRange word)
  | .double =>
    match Ieee.double.read word with
    | .ok pattern => .ok (Bytes.ofNat 8 pattern)
    | .error _ => .error (.floatRange word)
  | .dword | .word | .half | .byte =>
    match Numeral.number? word with
    | none => .error (.instruction (.notNumber word))
    | some v =>
      let width := 8 * kind.size
      let bound : Int := (1 <<< width : Nat)
      if kind.size < 8 && (2 * v.toInt < -bound || bound ≤ v.toInt) then
        .error (.scalarRange word width)
      else .ok (Bytes.ofNat kind.size v.toUInt64.toNat)

/-- The bytes of several scalars, or what is wrong with the first that has none. -/
def scalarsBytes (kind : Scalar) : List Text → Except Error (List (List UInt8))
  | [] => .ok []
  | word :: rest =>
    match scalarBytes kind word with
    | .error e => .error e
    | .ok bytes => (scalarsBytes kind rest).map (bytes :: ·)

/-- The bytes of a string. -/
def Encoding.bytes (host : Host) : Encoding → Text → Except Error (List UInt8)
  | .plain, t => .ok t
  | .terminated, t => .ok (t ++ [0])
  | .utf16, t => (host.utf16 t).mapError Error.stringSyntax

/-- The natural alignment of a string. -/
def Encoding.align : Encoding → Nat
  | .utf16 => 2
  | _ => 1

/-- Copies of a block with a gap after each but the last. -/
def copies (block : List UInt8) (gap : Nat) : (n : Nat) → ByteArray → ByteArray
  | 0, acc => acc
  | 1, acc => acc ++ Bytes.ofList block
  | n + 2, acc => copies block gap (n + 1) (acc ++ Bytes.ofList (block ++ List.replicate gap 0))

namespace State

/-- The alignment in force: what `.align` asks for, or the natural one. -/
def alignment (s : State) (natural : Nat) : Nat := s.align.getD natural

/-- As many items of a stride fit into the current segment. -/
def fits (s : State) (count stride : Nat) : Except Error Unit :=
  let room := segmentMax - min s.filled segmentMax
  if stride ≠ 0 && room / stride < count then .error (.noRoom count stride) else .ok ()

/-- Write scalars, each aligned. -/
def emitScalars (s : State) (align : Nat) : List (List UInt8) → State
  | [] => s
  | bytes :: rest => ((s.padTo align).emit (Bytes.ofList bytes)).emitScalars align rest

/-- Set the alignment of the items that follow. -/
def alignDirective (s : State) (args : Text) : Except Failure State :=
  match count args with
  | .error e => s.fail e
  | .ok n =>
    if n = 0 || 256 < n || n ≠ 1 <<< n.log2 then s.fail (.alignInvalid n)
    else .ok { s with align := some n }

/-- Write zeros. -/
def spaceDirective (s : State) (args : Text) : Except Failure State :=
  match count args with
  | .error e => s.fail e
  | .ok n =>
    match s.fits n 1 with
    | .error e => s.fail e
    | .ok () =>
      .ok { (s.padTo (s.alignment 1)).emit (Bytes.zeros n) with lastScalar := none }

/-- Write a string. -/
def stringDirective (s : State) (encoding : Encoding) (args : Text) : Except Failure State :=
  match Literal.string? args with
  | none => s.fail (.stringSyntax args)
  | some t =>
    match encoding.bytes s.host t with
    | .error e => s.fail e
    | .ok bytes =>
      .ok { (s.padTo (s.alignment encoding.align)).emit (Bytes.ofList bytes) with lastScalar := none }

/-- Write the last scalar again, each copy aligned like a value written out. -/
def repeatDirective (s : State) (args : Text) : Except Failure State :=
  match count args with
  | .error e => s.fail e
  | .ok n =>
    match s.lastScalar with
    | none => s.fail .repeatNone
    | some block =>
      let align := s.alignment block.length
      let stride := Bytes.roundUpNat block.length align
      match s.fits n stride with
      | .error e => s.fail e
      | .ok () =>
        if n = 0 then .ok s
        else
          .ok ((s.padTo align).emit (copies block (stride - block.length) n ByteArray.empty))

/-- Write scalars; the last one can be repeated. -/
def scalarDirective (s : State) (kind : Scalar) (name args : Text) : Except Failure State :=
  match args.splitOperands with
  | [] => s.fail (.valueMissing name)
  | words =>
    match scalarsBytes kind words with
    | .error e => s.fail e
    | .ok items =>
      .ok { s.emitScalars (s.alignment kind.size) items with lastScalar := items.getLast? }

/-- Carry out a directive of a data segment. -/
def data (s : State) (name args : Text) : Except Failure State :=
  match dataDirective? name with
  | none => s.fail (.directiveUnknown name)
  | some .align => s.alignDirective args
  | some .space => s.spaceDirective args
  | some (.string encoding) => s.stringDirective encoding args
  | some .again => s.repeatDirective args
  | some (.scalar kind) => s.scalarDirective kind name args

end State

end Assembler

end VectorRisc
