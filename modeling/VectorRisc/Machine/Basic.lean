/-
Module: VectorRisc.Machine.Basic
Layer: Machine
Purpose: The state of the machine: registers, memory and open files, whether it has halted, and how many
  instructions it has executed. What it does can be noted in a log.
Imports: VectorRisc.Files.Basic, VectorRisc.Instruction.Set, VectorRisc.Instruction.Basic,
  VectorRisc.Machine.Action, VectorRisc.Machine.Registers, VectorRisc.Machine.Service,
  VectorRisc.Memory.Basic, VectorRisc.Object.Segment
Trusted boundary: none
Main exports: Machine, Machine.Error, Machine.Event, Machine.Step, Machine.idle, Machine.reset
Open obligations: none
-/
import VectorRisc.Files.Basic
import VectorRisc.Instruction.Basic
import VectorRisc.Instruction.Set
import VectorRisc.Machine.Action
import VectorRisc.Machine.Registers
import VectorRisc.Machine.Service
import VectorRisc.Memory.Basic
import VectorRisc.Object.Segment

namespace VectorRisc

namespace Machine

/-- Why the machine cannot go on. -/
inductive Error where
  | halted
  | noMemory
  | kernelRegister (number : UInt8)
  | noAction (name : Text)
  | unknownService (number : UInt64)
  | memory (cause : Memory.Error)
  | instruction (cause : Instruction.Error)
deriving DecidableEq, Repr, Inhabited

/-- The text of a machine error. -/
def Error.message : Error → String
  | .halted => "cpu halted"
  | .noMemory => "cpu has no memory"
  | .kernelRegister number => s!"kernel register invalid: {plain number.toNat}"
  | .noAction name => s!"instruction has no handler: {name.display}"
  | .unknownService number => s!"syscall {shown number.toNat} unknown"
  | .memory cause => cause.message
  | .instruction cause => cause.message

/-- Something that a log tells. -/
inductive Event where
  | memory (event : Memory.Event)
  | clock (pc : UInt64) (word : Word) (x : Instruction)
  | service (number a0 a1 a2 : UInt64)
  | reset (pc : UInt64)
  | load (brk entry : UInt64) (names : List Text)
deriving DecidableEq, Repr, Inhabited

/-- An event as a line of a log. -/
def Event.line : Event → String
  | .memory event => event.line
  | .clock pc word x =>
    s!"cpu: clock op={x.render.display} pc={hexed pc.toNat} word={hex8 word.toNat}"
  | .service number a0 a1 a2 =>
    let title := Service.title number
    s!"cpu: syscall a0={hexed a0.toNat} a1={hexed a1.toNat} a2={hexed a2.toNat} " ++
      s!"service={title.display}"
  | .reset pc => s!"cpu: reset pc={hexed pc.toNat}"
  | .load brk entry names =>
    let list := Text.join [ascii ' '] names
    s!"emulator: load break={hexed brk.toNat} entry={hexed entry.toNat} segments=[{list.display}]"

/-- What a log tells of: instructions and services, changes of the address map. -/
structure Tracing where
  steps : Bool := false
  memory : Bool := false
deriving DecidableEq, Repr, Inhabited

end Machine

/-- The machine, over a host for its files. -/
structure Machine (σ : Type) where
  registers : Registers := {}
  memory : Memory := {}
  files : Files σ
  /-- The instructions that can be decoded. -/
  table : Table := Table.standard
  /-- What they do. -/
  actions : List (Text × Action) := Action.all
  /-- Where execution starts. -/
  entry : UInt64 := 0
  halted : Bool := false
  exitCode : Int64 := 0
  /-- Instructions executed since the last reset. -/
  clocks : UInt64 := 0
  tracing : Machine.Tracing := {}
  log : Array Machine.Event := #[]

namespace Machine

variable {σ : Type}

/-- A machine after some work, and the error that stopped the work. -/
structure Step (σ : Type) where
  machine : Machine σ
  error : Option Error := none

/-- Note events of instructions and services. -/
def note (m : Machine σ) (event : Event) : Machine σ :=
  if m.tracing.steps then { m with log := m.log.push event } else m

/-- Note changes of the address map. -/
def noteMemory (m : Machine σ) (events : List Memory.Event) : Machine σ :=
  if m.tracing.memory then { m with log := m.log ++ (events.map Event.memory).toArray } else m

/-- Read a scalar register. -/
def get (m : Machine σ) (r : UInt8) : UInt64 := m.registers.get r

/-- Write a scalar register. -/
def set (m : Machine σ) (r : UInt8) (value : UInt64) : Machine σ :=
  { m with registers := m.registers.set r value }

/-- Write a vector register. -/
def setVector (m : Machine σ) (r : UInt8) (value : Lanes) : Machine σ :=
  { m with registers := m.registers.setVector r value }

/-- Go on at an address. -/
def goTo (m : Machine σ) (addr : UInt64) : Machine σ :=
  { m with registers := { m.registers with pc := addr } }

/-- The registers after a reset: the stack and frame pointers at the end of the stack, the global
    pointer at the start of data. -/
def freshRegisters (entry : UInt64) : Registers :=
  { (((({} : Registers).set Register.sp Memory.stackTop).set Register.fp Memory.stackTop).set
      Register.gp Segment.dataBase) with pc := entry }

/-- Make the machine ready to run from its entry. Memory stays; all files are closed. -/
def reset [FileSystem σ] (m : Machine σ) : Machine σ :=
  let m := { m with
    registers := freshRegisters m.entry
    halted := false
    exitCode := 0
    clocks := 0
    files := m.files.reset }
  m.note (.reset m.entry)

/-- A machine that is ready to run, if it has a memory. -/
def boot [FileSystem σ] (m : Machine σ) : Option Memory → Except Error (Machine σ)
  | none => .error .noMemory
  | some memory => .ok { m with memory := memory }.reset

end Machine

end VectorRisc
