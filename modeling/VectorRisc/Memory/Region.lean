/-
Module: VectorRisc.Memory.Region
Layer: Memory
Purpose: Regions of memory: a range of addresses with permissions and storage. An access is checked for
  its permission first, then for its bounds, and storage is touched only after both.
Imports: VectorRisc.Memory.Buffer
Trusted boundary: none
Main exports: Region, Region.make, Region.contains, Region.fault?, Region.read, Region.write
Open obligations: none
-/
import VectorRisc.Memory.Buffer

namespace VectorRisc

/-- A range of addresses from `first` to `last` with permissions. An empty region has its `last` one
    below its `first`. -/
structure Region where
  name : Text
  first : UInt64
  last : UInt64
  access : Access
  buffer : Buffer
deriving DecidableEq, Inhabited

namespace Region

/-- A region of at least `size` bytes at an address that starts with the bytes of an image. -/
def make (name : Text) (first size : UInt64) (access : Access) (image : ByteArray) : Region :=
  let size := if size < Bytes.size64 image then Bytes.size64 image else size
  { name := name, first := first, last := first + size - 1, access := access
    buffer := Buffer.ofImage size image }

/-- The number of addresses in the region. -/
def size (r : Region) : UInt64 := r.last + 1 - r.first

/-- The address after the region. -/
def stop (r : Region) : UInt64 := r.last + 1

/-- The address falls in the region. -/
def contains (r : Region) (addr : UInt64) : Bool :=
  r.size ≠ 0 && r.first ≤ addr && addr ≤ r.last

/-- The two regions share an address. -/
def overlaps (r other : Region) : Bool :=
  r.size ≠ 0 && other.size ≠ 0 && r.first ≤ other.last && other.first ≤ r.last

/-- Why an access to `n` bytes is refused: the permission, no bytes at all, or bounds. -/
def fault? (r : Region) (addr : UInt64) (n : Nat) (wanted : Access) : Option Memory.Error :=
  let last := addr + UInt64.ofNat n - 1
  if !r.access.allows wanted || n = 0 || last < addr || addr < r.first || r.last < last then
    some (.fault addr n wanted)
  else none

/-- The bytes at an address of the region, unchecked. -/
def get (r : Region) (addr : UInt64) (n : Nat) : List UInt8 := r.buffer.read (addr - r.first) n

/-- The region with bytes at an address of it, unchecked. -/
def put (r : Region) (addr : UInt64) (bytes : List UInt8) : Region :=
  { r with buffer := r.buffer.put (addr - r.first) bytes }

/-- Why bytes cannot be written at an address. -/
def writeFault? (r : Region) (addr : UInt64) (n : Nat) : Option Memory.Error :=
  (r.fault? addr n Access.forWrite).or (r.buffer.writeFault? (addr - r.first) n)

/-- Read `n` bytes of a readable region. -/
def read (r : Region) (addr : UInt64) (n : Nat) : Except Memory.Error (List UInt8) :=
  match r.fault? addr n Access.forRead with
  | some e => .error e
  | none => .ok (r.get addr n)

/-- Write bytes into a writable region. -/
def write (r : Region) (addr : UInt64) (bytes : List UInt8) : Except Memory.Error Region :=
  match r.writeFault? addr bytes.length with
  | some e => .error e
  | none => .ok (r.put addr bytes)

end Region

end VectorRisc
