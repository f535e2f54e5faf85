/-
Module: VectorRisc.Object.Segment
Layer: Object
Purpose: The four loadable segments of an object, their fixed addresses, permissions and alignments, and
  tables with one entry for each of them.
Imports: VectorRisc.Access, VectorRisc.Numeral.Integer
Trusted boundary: none
Main exports: Segment, PerSegment, Segment.Traits
Open obligations: none
-/
import VectorRisc.Access
import VectorRisc.Numeral.Integer

namespace VectorRisc

/-- One of the loadable segments: user and kernel code, user and kernel data. -/
inductive Segment where
  | text
  | data
  | ktext
  | kdata
deriving DecidableEq, Repr, Inhabited

namespace Segment

/-- The segments in the order of their numbers. -/
def all : List Segment := [.text, .data, .ktext, .kdata]

/-- The segment with a given number. -/
def ofCode? (n : Nat) : Option Segment := all[n]?

/-- The name of a segment. -/
def name : Segment → Text
  | .text => Text.ofString "text"
  | .data => Text.ofString "data"
  | .ktext => Text.ofString "ktext"
  | .kdata => Text.ofString "kdata"

/-- Where user code starts. -/
def textBase : UInt64 := 0x400000

/-- Where user data starts. -/
def dataBase : UInt64 := 0x10000000

/-- Where kernel code starts. -/
def ktextBase : UInt64 := 0x80000000

/-- Where kernel data starts. -/
def kdataBase : UInt64 := 0x90000000

/-- The fixed address of a segment. -/
def base : Segment → UInt64
  | .text => textBase
  | .data => dataBase
  | .ktext => ktextBase
  | .kdata => kdataBase

/-- The segment holds instructions. -/
def isCode : Segment → Bool
  | .text | .ktext => true
  | .data | .kdata => false

/-- The segment belongs to the kernel. -/
def isKernel : Segment → Bool
  | .ktext | .kdata => true
  | .text | .data => false

/-- Code can be read and executed, data read and written. -/
def access (s : Segment) : Access := if s.isCode then Access.rx else Access.rw

/-- The alignment of data segments, and of each object's data when objects are linked. -/
def dataAlign : UInt64 := 32

/-- The alignment of a segment. -/
def align (s : Segment) : UInt64 := if s.isCode then 4 else dataAlign

/-- Memory reserved at least for a data segment that declares no size. -/
def dataMinimum : UInt64 := 0x1000

end Segment

/-- One entry for each segment. -/
structure PerSegment (α : Type) where
  text : α
  data : α
  ktext : α
  kdata : α
deriving DecidableEq, Repr, Inhabited

namespace PerSegment

/-- The entry of a segment. -/
def get {α : Type} (p : PerSegment α) : Segment → α
  | .text => p.text
  | .data => p.data
  | .ktext => p.ktext
  | .kdata => p.kdata

/-- The table with another entry for a segment. -/
def set {α : Type} (p : PerSegment α) (s : Segment) (a : α) : PerSegment α :=
  match s with
  | .text => { p with text := a }
  | .data => { p with data := a }
  | .ktext => { p with ktext := a }
  | .kdata => { p with kdata := a }

/-- The table with the entry of a segment changed. -/
def modify {α : Type} (p : PerSegment α) (s : Segment) (f : α → α) : PerSegment α :=
  match s with
  | .text => { p with text := f p.text }
  | .data => { p with data := f p.data }
  | .ktext => { p with ktext := f p.ktext }
  | .kdata => { p with kdata := f p.kdata }

/-- The table of a function on segments. -/
def ofFn {α : Type} (f : Segment → α) : PerSegment α := ⟨f .text, f .data, f .ktext, f .kdata⟩

/-- The entries in the order of the segments. -/
def toList {α : Type} (p : PerSegment α) : List α := [p.text, p.data, p.ktext, p.kdata]

end PerSegment

end VectorRisc
