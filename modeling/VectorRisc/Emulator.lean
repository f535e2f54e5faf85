/-
Module: VectorRisc.Emulator
Layer: Emulator
Purpose: Running executables. Loading checks the executable, lays out its sections, the stack and the
  heap in an empty memory, and makes the machine ready; then it runs instruction by instruction until
  the program exits, fails, or the budget is spent.
Imports: VectorRisc.Machine.Clock, VectorRisc.Memory.Gap, VectorRisc.Object.File
Trusted boundary: none
Main exports: Emulator, Emulator.Error, Emulator.load, Emulator.reset, Emulator.tick, Emulator.run
Open obligations: none
-/
import VectorRisc.Machine.Clock
import VectorRisc.Memory.Gap
import VectorRisc.Object.File

namespace VectorRisc

namespace Emulator

/-- Why a program cannot be loaded or go on. -/
inductive Error where
  | noProgram
  | notExecutable (kind : FileKind)
  | noEntry (entry : UInt64)
  | memory (cause : Memory.Error)
  /-- An error of the instruction at `pc`. -/
  | runtime (pc : UInt64) (cause : Machine.Error)
deriving DecidableEq, Repr, Inhabited

/-- The text of an emulator error. -/
def Error.message : Error → String
  | .noProgram => "no program loaded"
  | .notExecutable kind => s!"object is not executable: {kind.name.display}"
  | .noEntry entry => s!"entry point outside of text: {hexed entry.toNat}"
  | .memory cause => cause.message
  | .runtime pc cause => s!"pc {hexed pc.toNat}: {cause.message}"

end Emulator

/-- A machine and the program that it runs. -/
structure Emulator (σ : Type) where
  machine : Machine σ
  program : Option ObjectFile := none
  stackSize : UInt64 := Memory.stackDefault
  /-- What the gap before the heap is drawn from. -/
  seed : UInt64 := 0
  verbose : Bool := false

namespace Emulator

/-! ### Loading -/

/-- The memory that a section takes. User data that declares no size has at least a page. -/
def regionSize (s : Segment) (content : Section) : UInt64 :=
  if s = .data && content.memSize = 0 && content.size < Segment.dataMinimum then Segment.dataMinimum
  else content.size

/-- The regions of the sections that are not empty. -/
def regions (program : ObjectFile) : List Region :=
  Segment.all.filterMap fun s =>
    let content := program.sections.get s
    let size := regionSize s content
    if size = 0 then none else some (Region.make s.name content.addr size s.access content.data)

/-- Add regions one after the other, up to the first that does not fit. -/
def addRegions : List Region → Memory → Memory × Option Memory.Error
  | [], m => (m, none)
  | r :: rest, m =>
    match m.add r with
    | .error e => (m, some e)
    | .ok next => addRegions rest next

/-- Add the stack and then the heap. -/
def addDynamic (stackSize gap : UInt64) (m : Memory) : Memory × Option Memory.Error :=
  match m.addStack stackSize with
  | .error e => (m, some e)
  | .ok withStack =>
    match withStack.addHeap gap with
    | .error e => (withStack, some e)
    | .ok full => (full, none)

/-- The memory of a program, as far as it could be laid out. -/
def layOut (stackSize gap : UInt64) (program : ObjectFile) : Memory × Option Memory.Error :=
  match addRegions (regions program) {} with
  | (m, some e) => (m, some e)
  | (m, none) => addDynamic stackSize gap m

/-- The entry lies on an instruction of a section. -/
def entersIn (program : ObjectFile) (s : Segment) : Bool :=
  let content := program.sections.get s
  content.addr ≤ program.entry && program.entry < content.addr + content.size

/-- Why a program cannot be run at all. -/
def unfit? (program : ObjectFile) : Option Error :=
  if program.kind ≠ .executable then some (.notExecutable program.kind)
  else if program.entry &&& 3 ≠ 0 || !(entersIn program .text || entersIn program .ktext) then
    some (.noEntry program.entry)
  else none

/-- An emulator after some work, and the error that stopped the work. -/
structure Outcome (σ : Type) where
  emulator : Emulator σ
  error : Option Error := none

variable {σ : Type} [FileSystem σ]

/-- Lay out the memory of a program and make the machine ready to run it. -/
def start (e : Emulator σ) (program : ObjectFile) : Outcome σ :=
  let (memory, fault) := layOut e.stackSize (Memory.heapGap e.seed e.seed) program
  let m := { e.machine with
    memory := memory
    tracing := { e.machine.tracing with memory := e.verbose } }
  let m := m.noteMemory (Memory.addedSince {} memory)
  match fault with
  | some cause => ⟨{ e with machine := m }, some (.memory cause)⟩
  | none =>
    let m := { m with tracing := { m.tracing with steps := e.verbose }, entry := program.entry }
    let m := m.note (.load memory.heapEnd program.entry memory.names)
    ⟨{ e with machine := m.reset }, none⟩

/-- Load the program again. -/
def reset (e : Emulator σ) : Outcome σ :=
  match e.program with
  | none => ⟨e, some .noProgram⟩
  | some program => e.start program

/-- Load a program. One that cannot be run leaves the emulator as it was. -/
def load (e : Emulator σ) (program : Option ObjectFile) : Outcome σ :=
  match program with
  | none => ⟨e, some .noProgram⟩
  | some file =>
    match unfit? file with
    | some cause => ⟨e, some cause⟩
    | none => { e with program := some file }.reset

/-! ### Running -/

/-- Execute one instruction. A program that has exited is left alone. -/
def tick (e : Emulator σ) : Outcome σ :=
  if e.program.isNone then ⟨e, some .noProgram⟩
  else if e.machine.halted then ⟨e, none⟩
  else
    let pc := e.machine.registers.pc
    let step := { e.machine with
      tracing := { e.machine.tracing with steps := e.verbose } : Machine σ }.clock
    ⟨{ e with machine := step.machine }, step.error.map (Error.runtime pc)⟩

/-- How a run ended. -/
inductive Ending where
  | exited (code : Int64)
  | failed (error : Error)
  /-- The budget of instructions was spent. -/
  | stopped
deriving DecidableEq, Repr, Inhabited

/-- Run until the program exits or fails, for at most `budget` instructions. -/
def run : (budget : Nat) → Emulator σ → Emulator σ × Ending
  | 0, e => (e, .stopped)
  | budget + 1, e =>
    let step := e.tick
    match step.error with
    | some cause => (step.emulator, .failed cause)
    | none =>
      if step.emulator.machine.halted then
        (step.emulator, .exited step.emulator.machine.exitCode)
      else run budget step.emulator

end Emulator

end VectorRisc
