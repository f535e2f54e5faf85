/-
Module: VectorRisc.Memory.Basic
Layer: Memory
Purpose: The memory of the machine: regions that share no address, one of which may be the heap and one
  the stack. The heap lies above the other regions and grows upwards as far as the next one; the stack
  ends at a fixed address.
Imports: VectorRisc.Memory.Region, VectorRisc.Sorting
Trusted boundary: none
Main exports: Memory, Memory.add, Memory.addHeap, Memory.addStack, Memory.moveBreak, Memory.sbrk,
  Memory.load, Memory.store, Memory.fetch, Memory.loadString, Memory.names, Memory.Event
Open obligations: none
-/
import VectorRisc.Memory.Region
import VectorRisc.Sorting

namespace VectorRisc

/-- Regions in the order they were added. `heap` and `stack` are places in that order. -/
structure Memory where
  regions : List Region := []
  heap : Option Nat := none
  stack : Option Nat := none
deriving DecidableEq, Inhabited

namespace Memory

/-! ### Events -/

/-- A change of the address map. -/
inductive Event where
  | added (name : Text) (first stop : UInt64) (access : Access)
  | moved (delta : Int64) (before after : UInt64)
deriving DecidableEq, Repr, Inhabited

/-- An event as a line of a log. -/
def Event.line : Event → String
  | .added name first stop access =>
    s!"memory: {name.display} {hexed first.toNat}..{hexed stop.toNat} {access.name.display}"
  | .moved delta before after =>
    s!"memory: sbrk({plain delta.toInt}) {hexed before.toNat} -> {hexed after.toNat}"

/-- The event of a region that was added. -/
def Event.ofRegion (r : Region) : Event := .added r.name r.first r.stop r.access

/-- The events of the regions that a memory has beyond those of an earlier state. -/
def addedSince (before after : Memory) : List Event :=
  (after.regions.drop before.regions.length).map Event.ofRegion

/-! ### The address map -/

/-- The end of the stack. -/
def stackTop : UInt64 := 0x7ffffffff000

/-- The size of the stack unless another is asked for. -/
def stackDefault : UInt64 := 2 * 1024 * 1024

/-- The alignment of the heap's start and of the stack's size. -/
def heapAlign : UInt64 := 32

/-- Add a region, which must share no address with another. -/
def add (m : Memory) (r : Region) : Except Error Memory :=
  match m.regions.find? r.overlaps with
  | some other => .error (.overlap r.name other.name)
  | none => .ok { m with regions := m.regions ++ [r] }

/-- The address after the highest region, the stack and empty regions apart. -/
def top (m : Memory) : UInt64 :=
  m.regions.zipIdx.foldl (fun top (r, i) =>
    if m.stack ≠ some i && r.size ≠ 0 && top < r.stop then r.stop else top) 0

/-- Where a heap starts: `gap` bytes above the highest region, aligned. -/
def heapStart (m : Memory) (gap : UInt64) : UInt64 :=
  Bytes.roundUp m.top heapAlign + Bytes.roundUp gap heapAlign

/-- Add an empty heap, which becomes the heap of the memory. -/
def addHeap (m : Memory) (gap : UInt64) : Except Error Memory :=
  let r := Region.make (Text.ofString "heap") (m.heapStart gap) 0 Access.rw ByteArray.empty
  (m.add r).map fun next => { next with heap := some m.regions.length }

/-- Add a stack of at least `size` bytes, all of them in storage from the start. -/
def addStack (m : Memory) (size : UInt64) : Except Error Memory :=
  let size := Bytes.roundUp size heapAlign
  if size = 0 || stackTop < size then .error (.stackSize size)
  else
    let r := Region.make (Text.ofString "stack") (stackTop - size) size Access.rw ByteArray.empty
    match r.buffer.grow size with
    | .error e => .error e
    | .ok buffer =>
      (m.add { r with buffer := buffer }).map fun next =>
        { next with stack := some m.regions.length }

/-- The heap. -/
def heap? (m : Memory) : Option Region := m.heap.bind fun i => m.regions[i]?

/-- The end of the heap, zero if there is none. -/
def heapEnd (m : Memory) : UInt64 := (m.heap?.map Region.stop).getD 0

/-- Why the break cannot move by `delta`: below the heap's start, beyond the address space, or into
    another region above the heap's start. -/
def moveFault? (m : Memory) (delta : Int64) : Option Error :=
  match m.heap? with
  | none => some .noHeap
  | some heap =>
    let next := heap.stop + delta.toUInt64
    if delta = 0 then none
    else if delta < 0 && (heap.stop < next || next < heap.first) then some .heapUnderflow
    else if 0 < delta && next < heap.stop then some .heapExhausted
    else
      m.regions.zipIdx.findSome? fun (r, i) =>
        if m.heap = some i || r.size = 0 || r.first < heap.first || next ≤ r.first then none
        else some (.heapReaches next r.name)

/-- A heap that ends at another address; the bytes above it are gone. -/
def resize (heap : Region) (next : UInt64) : Region :=
  let size := next - heap.first
  { heap with
    last := next - 1
    buffer := { heap.buffer with limit := size }.truncate size }

/-- The memory with its break moved by `delta`, unchecked. -/
def shift (m : Memory) (delta : Int64) : Memory :=
  match m.heap with
  | none => m
  | some i =>
    if delta = 0 then m
    else { m with regions := m.regions.modify i fun heap => resize heap (heap.stop + delta.toUInt64) }

/-- Move the break by `delta` bytes. Growth into another region fails and changes nothing. -/
def moveBreak (m : Memory) (delta : Int64) : Except Error Memory :=
  match m.moveFault? delta with
  | some e => .error e
  | none => .ok (m.shift delta)

/-- Ask for the break to move by `delta` bytes. The answer is where the break was, also if it cannot move,
    and zero if there is no heap. -/
def sbrk (m : Memory) (delta : Int64) : UInt64 × Except Error Memory := (m.heapEnd, m.moveBreak delta)

/-- The events of a break that has moved by `delta`. -/
def movedBy (before : Memory) (delta : Int64) : List Event :=
  if delta = 0 then [] else [.moved delta before.heapEnd (before.heapEnd + delta.toUInt64)]

/-! ### Access -/

/-- The first region that holds an address. -/
def region? (m : Memory) (addr : UInt64) : Option Region := m.regions.find? fun r => r.contains addr

/-- Why an access to `n` bytes is refused. The region of the first address has to hold them all. -/
def fault? (m : Memory) (addr : UInt64) (n : Nat) (wanted : Access) : Option Error :=
  match m.region? addr with
  | none => some (.fault addr n wanted)
  | some r => r.fault? addr n wanted

/-- Why `n` bytes cannot be stored at an address. -/
def storeFault? (m : Memory) (addr : UInt64) (n : Nat) : Option Error :=
  match m.region? addr with
  | none => some (.fault addr n Access.forWrite)
  | some r => r.writeFault? addr n

/-- The bytes at an address, unchecked. -/
def get (m : Memory) (addr : UInt64) (n : Nat) : List UInt8 :=
  match m.region? addr with
  | none => List.replicate n 0
  | some r => r.get addr n

/-- The list with its first element that satisfies `p` changed by `f`. -/
def modifyFirst {α : Type} (p : α → Bool) (f : α → α) : List α → List α
  | [] => []
  | a :: rest => if p a then f a :: rest else a :: modifyFirst p f rest

/-- The memory with bytes at an address, unchecked. -/
def put (m : Memory) (addr : UInt64) (bytes : List UInt8) : Memory :=
  { m with regions := modifyFirst (fun r => r.contains addr) (fun r => r.put addr bytes) m.regions }

/-- Read `n` bytes under a permission. -/
def read (m : Memory) (addr : UInt64) (n : Nat) (wanted : Access) : Except Error (List UInt8) :=
  match m.fault? addr n wanted with
  | some e => .error e
  | none => .ok (m.get addr n)

/-- Fetch an instruction word from an executable region. -/
def fetch (m : Memory) (addr : UInt64) : Except Error UInt32 :=
  (m.read addr 4 Access.forExecute).map fun bytes => UInt32.ofNat (Bytes.toNat bytes)

/-- Load `n` bytes from a readable region. -/
def load (m : Memory) (addr : UInt64) (n : Nat) : Except Error (List UInt8) :=
  m.read addr n Access.forRead

/-- Load a number of `width` bytes. -/
def loadNumber (m : Memory) (addr : UInt64) (width : Nat) : Except Error UInt64 :=
  (m.load addr width).map fun bytes => UInt64.ofNat (Bytes.toNat bytes)

/-- Store bytes into a writable region. -/
def store (m : Memory) (addr : UInt64) (bytes : List UInt8) : Except Error Memory :=
  match m.storeFault? addr bytes.length with
  | some e => .error e
  | none => .ok (m.put addr bytes)

/-- The low `width` bytes of a value, as they are stored. -/
def numberBytes (width : Nat) (value : UInt64) : List UInt8 := Bytes.ofNat width value.toNat

/-- Load bytes up to a zero byte, at most `limit` of them, onto those so far in reverse. -/
def loadStringFrom (m : Memory) : (limit : Nat) → (sofar : Text) → (addr : UInt64) → Text × Option Error
  | 0, sofar, _ => (sofar.reverse, none)
  | limit + 1, sofar, addr =>
    match m.load addr 1 with
    | .error e => (sofar.reverse, some e)
    | .ok bytes =>
      if bytes = [0] then (sofar.reverse, none)
      else m.loadStringFrom limit (bytes ++ sofar) (addr + 1)

/-- Load a text of at most `limit` bytes that ends before a zero byte. A fault comes with the bytes
    before it. -/
def loadString (m : Memory) (limit : Nat) (addr : UInt64) : Text × Option Error :=
  m.loadStringFrom limit [] addr

/-- The names of the regions in the order of their first addresses. -/
def names (m : Memory) : List Text :=
  (Sorting.sort (fun a b => a.first < b.first) m.regions).map Region.name

end Memory

end VectorRisc
