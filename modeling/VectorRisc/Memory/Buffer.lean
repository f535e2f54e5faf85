/-
Module: VectorRisc.Memory.Buffer
Layer: Memory
Purpose: Growable byte storage. The size that counts is kept apart from the storage behind it, which
  grows in large steps up to a limit. Bytes past the size read as zero, and storage past the size is
  zero, so that growing into it needs no clearing.
Imports: VectorRisc.Bytes, VectorRisc.Memory.Error
Trusted boundary: there is memory for storage of any capacity up to the limit
Main exports: Buffer, Buffer.grow, Buffer.truncate, Buffer.read, Buffer.write, Buffer.toList
Open obligations: none
-/
import VectorRisc.Bytes
import VectorRisc.Memory.Error

namespace VectorRisc

/-- Growable storage of at most `limit` bytes, of which the first `size` count. -/
structure Buffer where
  limit : UInt64
  size : UInt64 := 0
  data : ByteArray := ByteArray.empty
deriving DecidableEq, Inhabited

namespace Buffer

/-- Storage is reserved in no smaller piece than this. -/
def leastCapacity : Nat := 256

/-- A buffer that holds the bytes of an image. -/
def ofImage (limit : UInt64) (image : ByteArray) : Buffer :=
  { limit := limit, size := Bytes.size64 image, data := image }

/-- The byte at an offset; zero past the size. -/
def get (b : Buffer) (i : Nat) : UInt8 := if i < b.size.toNat then Bytes.byteAt b.data i else 0

/-- The bytes that count. -/
def toList (b : Buffer) : List UInt8 := (List.range b.size.toNat).map b.get

/-- The `n` bytes from an offset on, zero past the size. -/
def read (b : Buffer) (offset : UInt64) (n : Nat) : List UInt8 :=
  (List.range n).map fun i => b.get (offset.toNat + i)

/-- The storage reserved for `size` bytes: at least twice what there is, unless the limit is less. -/
def capacityFor (b : Buffer) (size : UInt64) : Nat :=
  min (max (max (2 * b.data.size) leastCapacity) size.toNat) b.limit.toNat

/-- Why the buffer cannot have at least `size` bytes. -/
def growFault? (b : Buffer) (size : UInt64) : Option Memory.Error :=
  if b.size < size && b.limit < size then some (.bufferLimit size b.limit) else none

/-- The buffer with at least `size` bytes; what is new is zero. -/
def extend (b : Buffer) (size : UInt64) : Buffer :=
  if size ≤ b.size then b
  else if size.toNat ≤ b.data.size then { b with size := size }
  else
    let kept := b.data.extract 0 b.size.toNat
    { b with size := size, data := kept ++ Bytes.zeros (b.capacityFor size - kept.size) }

/-- The buffer with at least `size` bytes, within its limit. -/
def grow (b : Buffer) (size : UInt64) : Except Memory.Error Buffer :=
  match b.growFault? size with
  | some e => .error e
  | none => .ok (b.extend size)

/-- The buffer with at most `size` bytes; the storage of the others is zero again. -/
def truncate (b : Buffer) (size : UInt64) : Buffer :=
  if b.size ≤ size then b
  else
    { b with
      size := size
      data := Bytes.clear b.data size.toNat (b.size.toNat - size.toNat) }

/-- Why `n` bytes cannot be written at an offset. -/
def writeFault? (b : Buffer) (offset : UInt64) (n : Nat) : Option Memory.Error :=
  let stop := offset + UInt64.ofNat n
  (b.growFault? stop).or (if stop < offset then some .outOfBounds else none)

/-- The buffer with bytes written at an offset, grown as far as they reach. -/
def put (b : Buffer) (offset : UInt64) (bytes : List UInt8) : Buffer :=
  let b := b.extend (offset + UInt64.ofNat bytes.length)
  { b with data := Bytes.overlay b.data offset.toNat bytes }

/-- Write bytes at an offset, growing the buffer within its limit. -/
def write (b : Buffer) (offset : UInt64) (bytes : List UInt8) : Except Memory.Error Buffer :=
  match b.writeFault? offset bytes.length with
  | some e => .error e
  | none => .ok (b.put offset bytes)

end Buffer

end VectorRisc
