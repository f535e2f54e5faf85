/-
Module: VectorRisc.Object.Linker
Layer: Object
Purpose: Linking relocatable objects into an executable. The sections of each segment are laid out in
  input order from the segment's address, then every relocation is resolved and patched into the laid
  out image. Each step that succeeds is noted as an event, also when a later one fails.
Imports: VectorRisc.Instruction.Word, VectorRisc.Message, VectorRisc.Object.File
Trusted boundary: there is memory for an image of any length up to `Bytes.lengthMax`
Main exports: Linker, Linker.Error, Linker.Event, Linker.layOutAll, Linker.sceneOf, Linker.add, Linker.link
Open obligations: none
-/
import VectorRisc.Instruction.Word
import VectorRisc.Message
import VectorRisc.Object.File

namespace VectorRisc

namespace Linker

/-- An object to link, under the name that messages use for it. -/
structure Input where
  name : Text
  file : ObjectFile
deriving DecidableEq, Inhabited

/-- Why a relocation cannot be applied. -/
inductive Cause where
  | undefined
  | branchAlign
  | branchRange
  | jumpAlign
  | jumpRange
  | position
deriving DecidableEq, Repr, Inhabited

/-- Why objects cannot be linked. -/
inductive Error where
  | noObjects
  | notRelocatable (name : Text)
  | collision (name label owner : Text)
  | kernelStart (name : Text)
  | entryDuplicate (name : Text)
  | entryMissing
  | overflow (name : Text)
  | relocation (name label : Text) (cause : Cause)
  /-- Linking would leave the image: the end of a relocated word wraps around the address space, or the
      length of the image does, or is more than can be allocated. -/
  | outOfBounds
deriving DecidableEq, Repr, Inhabited

/-- The text of a cause. -/
def Cause.message : Cause → String
  | .undefined => "symbol undefined"
  | .branchAlign => "branch target not word aligned"
  | .branchRange => "branch target out of range"
  | .jumpAlign => "jump target not word aligned"
  | .jumpRange => "jump target outside of the caller's region"
  | .position => "relocation outside of its segment"

/-- The text of a linker error. -/
def Error.message : Error → String
  | .noObjects => "no objects to link"
  | .notRelocatable name => s!"{name.display}: not a relocatable object"
  | .collision name label owner =>
    s!"{name.display}: {label.display}: global symbol defined more than once: also in {owner.display}"
  | .kernelStart name => s!"{name.display}: kernel text start declared more than once"
  | .entryDuplicate name => s!"{name.display}: entry point declared more than once"
  | .entryMissing => "no object declares an entry point"
  | .overflow name => s!"{name.display}: segment overflows its address space"
  | .relocation name label cause => s!"{name.display}: {label.display}: {cause.message}"
  | .outOfBounds => "out of the bounds of the image"

/-- A step of linking that has been done. -/
inductive Event where
  | placed (name : Text) (segment : Segment) (first stop : UInt64)
  | patched (name : Text) (segment : Segment) (position : UInt64) (label : Text) (addr : UInt64)
  | entered (entry : UInt64) (name : Text)
deriving DecidableEq, Repr, Inhabited

/-- An event as a line of a log. -/
def Event.line : Event → String
  | .placed name segment first stop =>
    s!"link: {name.display} {segment.name.display} {hexed first.toNat}..{hexed stop.toNat}"
  | .patched name segment position label addr =>
    s!"link: {name.display} {segment.name.display}+{hexed position.toNat} {label.display} -> " ++
      hexed addr.toNat
  | .entered entry name => s!"link: entry {hexed entry.toNat} in {name.display}"

/-! ### Symbols and entry -/

/-- A symbol that every object sees, with the place of the object that owns it. -/
structure Global where
  owner : Nat
  symbol : Symbol
deriving DecidableEq, Repr, Inhabited

/-- Add the global ones of some symbols of an input to those already known. -/
def mergeSymbols (inputs : List Input) (index : Nat) (name : Text) :
    List Symbol → List Global → Except Error (List Global)
  | [], known => .ok known
  | s :: rest, known =>
    if s.scope ≠ .global then mergeSymbols inputs index name rest known
    else
      match known.find? fun g => g.symbol.label = s.label with
      | some g => .error (.collision name s.label ((inputs[g.owner]?).elim [] Input.name))
      | none => mergeSymbols inputs index name rest (⟨index, s⟩ :: known)

/-- Add the global symbols of the inputs from a place on. -/
def mergeFrom (inputs : List Input) :
    (index : Nat) → List Input → List Global → Except Error (List Global)
  | _, [], known => .ok known
  | index, input :: rest, known =>
    match mergeSymbols inputs index input.name input.file.symbols known with
    | .error e => .error e
    | .ok known => mergeFrom inputs (index + 1) rest known

/-- The global symbols of all inputs; no label may be defined twice. -/
def merge (inputs : List Input) : Except Error (List Global) := mergeFrom inputs 0 inputs []

/-- The place of the one input with an entry address, looking from a place on. At most one input may
    start the kernel's code region. -/
def entryFrom : (index : Nat) → (kernel : Bool) → (found : Option Nat) → List Input →
    Except Error Nat
  | _, _, found, [] =>
    match found with
    | some index => .ok index
    | none => .error .entryMissing
  | index, kernel, found, input :: rest =>
    if input.file.kernelStart && kernel then .error (.kernelStart input.name)
    else
      let kernel := kernel || input.file.kernelStart
      if input.file.entry = 0 then entryFrom (index + 1) kernel found rest
      else if found.isSome then .error (.entryDuplicate input.name)
      else entryFrom (index + 1) kernel (some index) rest

/-! ### Layout -/

/-- Inputs with their places, in the order in which a segment takes them: the one that starts the
    kernel's code region comes first in kernel code. -/
def order (inputs : List Input) (s : Segment) : List (Nat × Input) :=
  let numbered := (List.range inputs.length).zip inputs
  let first := numbered.filter fun p => s = .ktext && p.2.file.kernelStart
  first ++ numbered.filter fun p => !(s = .ktext && p.2.file.kernelStart)

/-- The address of a segment in the executable: its fixed one, but kernel code goes where the input
    that starts it stands. -/
def segmentAddr (inputs : List Input) (s : Segment) : UInt64 :=
  match (if s = .ktext then inputs.find? fun i => i.file.kernelStart else none) with
  | some input => (input.file.sections.get s).addr
  | none => s.base

/-- An image brought to a length and then extended by a section. -/
def append (image : ByteArray) (offset : Nat) (s : Section) : ByteArray :=
  image ++ Bytes.zeros (offset - image.size) ++ s.data ++ Bytes.zeros (s.size.toNat - s.data.size)

/-- A segment under construction: its image, and the address given to each input so far. -/
structure Layout where
  image : ByteArray := ByteArray.empty
  bases : List (Nat × UInt64) := []
deriving DecidableEq, Inhabited

/-- Lay out the sections of a segment, each at the next aligned offset. Only the end of the section is
    looked at before the image is extended: addresses that go on at zero leave the end small, and the
    length of the image may still be out of bounds. -/
def layOut (s : Segment) (addr : UInt64) :
    List (Nat × Input) → Layout → List Event → Except (List Event × Error) (Layout × List Event)
  | [], layout, log => .ok (layout, log)
  | (index, input) :: rest, layout, log =>
    let sect := input.file.sections.get s
    let offset := Bytes.roundUp (Bytes.size64 layout.image) s.align
    let base := addr + offset
    let stop := base + sect.size
    if stop < base then .error (log, .overflow input.name)
    else if Bytes.lengthMax < offset.toNat + sect.size.toNat then .error (log, .outOfBounds)
    else
      layOut s addr rest
        { image := append layout.image offset.toNat sect, bases := (index, base) :: layout.bases }
        (.placed input.name s base stop :: log)

/-- The address that a layout gave to an input. -/
def Layout.baseOf (layout : Layout) (index : Nat) : UInt64 :=
  (layout.bases.lookup index).getD 0

/-- The memory a segment takes: data is rounded up to its alignment. -/
def memSizeOf (s : Segment) (image : ByteArray) : UInt64 :=
  if s.isCode then Bytes.size64 image else Bytes.roundUp (Bytes.size64 image) Segment.dataAlign

/-! ### Patches -/

/-- The word at an offset of an image, if it lies inside. -/
def wordAt? (image : ByteArray) (offset : UInt64) : Option Word :=
  if offset.toNat + 4 ≤ image.size then
    some (UInt32.ofNat (Bytes.toNat (Bytes.window image offset.toNat 4)))
  else none

/-- The image with another word at an offset. -/
def putWord (image : ByteArray) (offset : UInt64) (w : Word) : ByteArray :=
  Bytes.overlay image offset.toNat (Bytes.ofNat 4 w.toNat)

/-- Change the word at an offset of an image. -/
def mapWord (image : ByteArray) (offset : UInt64) (f : Word → Word) : Except Error ByteArray :=
  match wordAt? image offset with
  | some w => .ok (putWord image offset (f w))
  | none => .error .outOfBounds

/-- The number of words that a relocation patches. -/
def wordsOf (kind : RelocationKind) : UInt64 := if kind.patch? = some .address then 4 else 1

/-- Patch the four words that load an address, from the `n`-th on. -/
def patchSlices (addr offset : UInt64) : List Nat → ByteArray → Except Error ByteArray
  | [], image => .ok image
  | n :: rest, image =>
    match mapWord image (offset + UInt64.ofNat (4 * n)) fun w => w.setImmEI (sliceOf addr n) with
    | .error e => .error e
    | .ok image => patchSlices addr offset rest image

/-- The bits of an address that name its jump region. -/
def region (addr : UInt64) : UInt64 := (addr >>> 2) &&& ~~~0x1ffffff

/-- Patch the image of a segment at an offset, for an instruction that stands at `pc` and refers to
    `addr`. A branch counts words from the next instruction and a jump stays in its region. -/
def patch (fail : Cause → Error) (kind : RelocationKind) (pc addr offset : UInt64)
    (image : ByteArray) : Except Error ByteArray :=
  match kind.patch? with
  | none => .ok image
  | some .branch =>
    let delta := (addr - (pc + 4)).toInt64
    if delta % 4 ≠ 0 then .error (fail .branchAlign)
    else
      let count := delta / 4
      if count < -16384 || 16384 ≤ count then .error (fail .branchRange)
      else mapWord image offset fun w => w.setImmI (count.toUInt64.toUInt16 &&& 0x7fff)
  | some .jump =>
    if addr &&& 3 ≠ 0 then .error (fail .jumpAlign)
    else if region pc ≠ region addr then .error (fail .jumpRange)
    else mapWord image offset fun w => w.setAddrJ (addr >>> 2).toUInt32
  | some .slice =>
    mapWord image offset fun w => w.setImmEI (sliceOf addr (w.funcEI.toNat % 4))
  | some .address => patchSlices addr offset [0, 1, 2, 3] image

/-- What relocations are resolved against: the inputs, the global symbols, and the address of each
    input in each segment. -/
structure Scene where
  inputs : List Input
  globals : List Global
  base : Segment → Nat → UInt64
  addr : Segment → UInt64

/-- The address of a relocation's label: among the input's own symbols, or among the global ones. -/
def target? (scene : Scene) (index : Nat) (file : ObjectFile) (r : Relocation) : Option UInt64 :=
  let found :=
    if r.scope = .global then
      (scene.globals.find? fun g => g.symbol.label = r.label).map fun g => (g.owner, g.symbol)
    else (file.symbol? r.label).map fun s => (index, s)
  found.map fun (owner, s) => scene.base s.kind.segment owner + s.position

/-- Apply one relocation of an input to the images of user and kernel code. -/
def relocate (scene : Scene) (index : Nat) (input : Input) (r : Relocation)
    (images : PerSegment ByteArray) : Except Error (PerSegment ByteArray × Event) :=
  let fail := Error.relocation input.name r.label
  match target? scene index input.file r with
  | none => .error (fail .undefined)
  | some addr =>
    let s := r.kind.segment
    let pc := scene.base s index + r.position
    if Bytes.size64 (input.file.sections.get s).data < r.position + 4 * wordsOf r.kind then
      .error (fail .position)
    else
      match patch fail r.kind pc addr (pc - scene.addr s) (images.get s) with
      | .error e => .error e
      | .ok image => .ok (images.set s image, .patched input.name s r.position r.label addr)

/-- Apply relocations of an input in order. -/
def relocateAll (scene : Scene) (index : Nat) (input : Input) :
    List Relocation → PerSegment ByteArray → List Event →
      Except (List Event × Error) (PerSegment ByteArray × List Event)
  | [], images, log => .ok (images, log)
  | r :: rest, images, log =>
    match relocate scene index input r images with
    | .error e => .error (log, e)
    | .ok (images, event) => relocateAll scene index input rest images (event :: log)

/-- Apply the relocations of the inputs from a place on. -/
def relocateInputs (scene : Scene) :
    (index : Nat) → List Input → PerSegment ByteArray → List Event →
      Except (List Event × Error) (PerSegment ByteArray × List Event)
  | _, [], images, log => .ok (images, log)
  | index, input :: rest, images, log =>
    match relocateAll scene index input input.file.relocations images log with
    | .error e => .error e
    | .ok (images, log) => relocateInputs scene (index + 1) rest images log

/-- The entry address of the executable: that of the input's entry in its laid out code segment. -/
def entryAddress (base : Segment → Nat → UInt64) (index : Nat) (file : ObjectFile) : UInt64 :=
  let s : Segment := if Segment.ktextBase ≤ file.entry then .ktext else .text
  base s index + (file.entry - (file.sections.get s).addr)

/-- Lay out all segments, one after the other. -/
def layOutAll (inputs : List Input) : Except (List Event × Error) (PerSegment Layout × List Event) := do
  let addr := segmentAddr inputs
  let (text, log) ← layOut .text (addr .text) (order inputs .text) {} []
  let (data, log) ← layOut .data (addr .data) (order inputs .data) {} log
  let (ktext, log) ← layOut .ktext (addr .ktext) (order inputs .ktext) {} log
  let (kdata, log) ← layOut .kdata (addr .kdata) (order inputs .kdata) {} log
  return (⟨text, data, ktext, kdata⟩, log)

/-- The scene of inputs that are laid out. -/
def sceneOf (inputs : List Input) (globals : List Global) (layouts : PerSegment Layout) : Scene where
  inputs := inputs
  globals := globals
  base s index := (layouts.get s).baseOf index
  addr := segmentAddr inputs

/-- Link inputs into an executable. Events are held latest first; a failure comes with the events
    before it. -/
def combine (inputs : List Input) : Except (List Event × Error) (ObjectFile × List Event) :=
  if inputs.isEmpty then .error ([], .noObjects)
  else
    match merge inputs, entryFrom 0 false none inputs with
    | .error e, _ => .error ([], e)
    | _, .error e => .error ([], e)
    | .ok globals, .ok entry => do
      let (layouts, log) ← layOutAll inputs
      let scene := sceneOf inputs globals layouts
      let (images, log) ←
        relocateInputs scene 0 inputs (PerSegment.ofFn fun s => (layouts.get s).image) log
      match inputs[entry]? with
      | none => .error (log, .entryMissing)
      | some owner =>
        let start := entryAddress scene.base entry owner.file
        let sectionOf := fun s : Segment =>
          { addr := scene.addr s, data := images.get s
            memSize := memSizeOf s (layouts.get s).image : Section }
        return ({ kind := .executable, entry := start, sections := PerSegment.ofFn sectionOf },
          .entered start owner.name :: log)

end Linker

/-- Objects waiting to be linked, in the order they were added. -/
structure Linker where
  inputs : List Linker.Input := []
deriving DecidableEq, Inhabited

namespace Linker

/-- Add a relocatable object. -/
def add (ln : Linker) (name : Text) (file : ObjectFile) : Except Error Linker :=
  if file.kind ≠ .relocatable then .error (.notRelocatable name)
  else .ok { inputs := ln.inputs ++ [⟨name, file⟩] }

/-- Link the objects added so far: the executable or the reason there is none, and the events in the
    order they happened. -/
def link (ln : Linker) : Except Error ObjectFile × List Event :=
  match combine ln.inputs with
  | .ok (file, log) => (.ok file, log.reverse)
  | .error (log, e) => (.error e, log.reverse)

end Linker

end VectorRisc
