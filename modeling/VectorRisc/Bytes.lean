/-
Module: VectorRisc.Bytes
Layer: Bytes
Purpose: Numbers as little-endian bytes, and byte images that are read and written in place. Everything
  the machine stores, in memory and in object files, has its low byte first.
Imports: none
Trusted boundary: none
Main exports: Bytes.ofNat, Bytes.toNat, Bytes.zeros, Bytes.window, Bytes.overlay, Bytes.clear,
  Bytes.roundUp
Open obligations: none
-/

namespace VectorRisc

namespace Bytes

/-- Images are equal if they have the same bytes. -/
instance decidableEqImage : DecidableEq ByteArray := ByteArray.instDecidableEq

/-- The `width` low bytes of a number, low byte first. -/
def ofNat : (width : Nat) → (n : Nat) → List UInt8
  | 0, _ => []
  | width + 1, n => UInt8.ofNat n :: ofNat width (n / 256)

/-- The number whose bytes these are, low byte first. -/
def toNat : List UInt8 → Nat
  | [] => 0
  | b :: rest => b.toNat + 256 * toNat rest

/-- An image of `n` zero bytes, doubled up from its halves. -/
def zeros (n : Nat) : ByteArray :=
  if n = 0 then ByteArray.empty
  else
    let half := zeros (n / 2)
    if n % 2 = 0 then half ++ half else (half ++ half).push 0
termination_by n
decreasing_by omega

/-- An image with the bytes of a list. -/
def ofList (bytes : List UInt8) : ByteArray := ⟨bytes.toArray⟩

/-- The bytes of an image. -/
def toList (image : ByteArray) : List UInt8 := image.data.toList

/-- The byte at a place of an image; beyond the end every byte is zero. -/
def byteAt (image : ByteArray) (i : Nat) : UInt8 := if h : i < image.size then image[i] else 0

/-- The `n` bytes from `start` on, zero beyond the end of the image. -/
def window (image : ByteArray) (start n : Nat) : List UInt8 :=
  (List.range n).map fun i => byteAt image (start + i)

/-- The image with the bytes of a list written from `start` on; what falls beyond the end is dropped. -/
def overlay (image : ByteArray) : (start : Nat) → List UInt8 → ByteArray
  | _, [] => image
  | start, b :: rest =>
    overlay (if h : start < image.size then image.set start b h else image) (start + 1) rest

/-- The image with `n` zeros written from `start` on. -/
def clear (image : ByteArray) (start : Nat) : (n : Nat) → ByteArray
  | 0 => image
  | n + 1 => clear (if h : start < image.size then image.set start 0 h else image) (start + 1) n

/-- The greatest number of bytes that can be allocated in one piece: a length is a signed 64-bit
    number. -/
def lengthMax : Nat := 0x7fffffffffffffff

/-- The number of bytes of an image as a 64-bit value. -/
def size64 (image : ByteArray) : UInt64 := UInt64.ofNat image.size

/-- The least multiple of `align` that is not below `value`; `align` is a power of two. -/
def roundUp (value align : UInt64) : UInt64 := (value + align - 1) &&& ~~~(align - 1)

/-- The least multiple of `align` that is not below `value`. -/
def roundUpNat (value align : Nat) : Nat := (value + align - 1) / align * align

end Bytes

end VectorRisc
