/-
Module: VectorRisc.Machine.Lanes
Layer: Machine
Purpose: Vector registers of 256 bits, seen as eight lanes of 32 bits or as four of 64. A 64-bit lane is
  made of two 32-bit lanes, the lower one first.
Imports: VectorRisc.Bytes
Trusted boundary: none
Main exports: Lanes, Lanes.get32, Lanes.get64, Lanes.of32, Lanes.of64, Lanes.set32, Lanes.set64,
  Lanes.bytes, Lanes.ofBytes
Open obligations: none
-/
import VectorRisc.Bytes

namespace VectorRisc

/-- The content of a vector register. -/
structure Lanes where
  words : Vector UInt32 8
deriving DecidableEq, Inhabited

namespace Lanes

/-- All lanes zero. -/
def zero : Lanes := ⟨Vector.replicate 8 0⟩

/-- A 32-bit lane. -/
def get32 (v : Lanes) (n : Fin 8) : UInt32 := v.words[n]

/-- The place of the lower half of a 64-bit lane. -/
def lower (n : Fin 4) : Fin 8 := ⟨2 * n.val, by omega⟩

/-- The place of the upper half of a 64-bit lane. -/
def upper (n : Fin 4) : Fin 8 := ⟨2 * n.val + 1, by omega⟩

/-- The 64-bit lane that a 32-bit lane is half of. -/
def whole (n : Fin 8) : Fin 4 := ⟨n.val / 2, by omega⟩

/-- A 64-bit lane. -/
def get64 (v : Lanes) (n : Fin 4) : UInt64 :=
  (v.get32 (lower n)).toUInt64 ||| ((v.get32 (upper n)).toUInt64 <<< 32)

/-- The register with the given 32-bit lanes. -/
def of32 (f : Fin 8 → UInt32) : Lanes := ⟨Vector.ofFn f⟩

/-- The half of a 64-bit value that stands in a 32-bit lane. -/
def half (value : UInt64) (n : Fin 8) : UInt32 :=
  if n.val % 2 = 0 then value.toUInt32 else (value >>> 32).toUInt32

/-- The register with the given 64-bit lanes. -/
def of64 (f : Fin 4 → UInt64) : Lanes := of32 fun n => half (f (whole n)) n

/-- The register with another 32-bit lane. -/
def set32 (v : Lanes) (n : Fin 8) (value : UInt32) : Lanes :=
  of32 fun k => if k = n then value else v.get32 k

/-- The register with another 64-bit lane. -/
def set64 (v : Lanes) (n : Fin 4) (value : UInt64) : Lanes :=
  of64 fun k => if k = n then value else v.get64 k

/-- The bytes of the register as they stand in memory. -/
def bytes (v : Lanes) : List UInt8 := v.words.toList.flatMap fun w => Bytes.ofNat 4 w.toNat

/-- The number of bytes of a register. -/
def byteCount : Nat := 32

/-- The register with the given bytes. -/
def ofBytes (bytes : List UInt8) : Lanes :=
  of32 fun n => UInt32.ofNat (Bytes.toNat ((bytes.drop (4 * n.val)).take 4))

/-- The register with the first eight of some 32-bit values, and zeros if there are fewer. -/
def ofList32 (values : List UInt32) : Lanes := of32 fun n => values.getD n.val 0

/-- The register with the first four of some 64-bit values, and zeros if there are fewer. -/
def ofList64 (values : List UInt64) : Lanes := of64 fun n => values.getD n.val 0

/-! ### Lane by lane -/

/-- An operation on each pair of 32-bit lanes. -/
def zip32 (f : UInt32 → UInt32 → UInt32) (v w : Lanes) : Lanes :=
  of32 fun n => f (v.get32 n) (w.get32 n)

/-- An operation on each pair of 64-bit lanes. -/
def zip64 (f : UInt64 → UInt64 → UInt64) (v w : Lanes) : Lanes :=
  of64 fun n => f (v.get64 n) (w.get64 n)

/-- An operation on each 32-bit lane. -/
def map32 (f : UInt32 → UInt32) (v : Lanes) : Lanes := of32 fun n => f (v.get32 n)

/-- An operation on each 64-bit lane. -/
def map64 (f : UInt64 → UInt64) (v : Lanes) : Lanes := of64 fun n => f (v.get64 n)

/-- The 32-bit lanes in order. -/
def list32 (v : Lanes) : List UInt32 := (List.finRange 8).map v.get32

/-- The 64-bit lanes in order. -/
def list64 (v : Lanes) : List UInt64 := (List.finRange 4).map v.get64

/-- The lane that the low bits of a value name. -/
def index32 (value : UInt64) : Fin 8 := ⟨value.toNat % 8, by omega⟩

/-- The lane that the low bits of a value name. -/
def index64 (value : UInt64) : Fin 4 := ⟨value.toNat % 4, by omega⟩

/-- Lane `n` takes the lane that hexadecimal digit `n` of the selector names. -/
def shuffle32 (v : Lanes) (selector : UInt64) : Lanes :=
  of32 fun n => v.get32 (index32 (selector >>> UInt64.ofNat (4 * n.val)))

/-- Lane `n` takes the lane that hexadecimal digit `n` of the selector names. -/
def shuffle64 (v : Lanes) (selector : UInt64) : Lanes :=
  of64 fun n => v.get64 (index64 (selector >>> UInt64.ofNat (4 * n.val)))

/-- One bit of each lane, the first lane's lowest. -/
def mask (bits : List Bool) : UInt64 :=
  UInt64.ofNat (bits.foldr (fun b acc => b.toNat + 2 * acc) 0)

end Lanes

end VectorRisc
