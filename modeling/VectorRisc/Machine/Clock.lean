/-
Module: VectorRisc.Machine.Clock
Layer: Machine
Purpose: The execution of one instruction. It is fetched, decoded and looked up before anything changes;
  then the program counter moves on, the action is performed, and the clocks advance even if the action
  fails.
Imports: VectorRisc.Instruction.Word, VectorRisc.Machine.Services
Trusted boundary: none
Main exports: Machine.perform, Machine.clock
Open obligations: none
-/
import VectorRisc.Instruction.Word
import VectorRisc.Machine.Services

namespace VectorRisc

namespace Machine

variable {σ : Type}

/-- The work is done. -/
def done (m : Machine σ) : Step σ := ⟨m, none⟩

/-- The work is refused. -/
def refuse (m : Machine σ) (e : Error) : Step σ := ⟨m, some e⟩

/-- The register that an access moves. -/
def movedRegister (form : Addressing) (x : Instruction) : UInt8 :=
  match form with
  | .offset => x.rt
  | .scaled => x.rd

/-- The address of an access to `size` bytes. -/
def addressOf (m : Machine σ) (form : Addressing) (size : Nat) (x : Instruction) : UInt64 :=
  match form with
  | .offset => m.get x.rs + x.imm.toUInt64
  | .scaled => m.get x.rs + m.get x.rt * UInt64.ofNat size

/-- Load a number of `width` bytes. -/
def load (m : Machine σ) (form : Addressing) (width : Nat) (signed : Bool) (x : Instruction) : Step σ :=
  match m.memory.loadNumber (m.addressOf form width x) width with
  | .error e => m.refuse (.memory e)
  | .ok value =>
    let value := if signed then (signExtend value (8 * width)).toUInt64 else value
    (m.set (movedRegister form x) value).done

/-- Store bytes. -/
def storeBytes (m : Machine σ) (addr : UInt64) (bytes : List UInt8) : Step σ :=
  match m.memory.storeFault? addr bytes.length with
  | some e => m.refuse (.memory e)
  | none => { m with memory := m.memory.put addr bytes }.done

/-- Store the low `width` bytes of a register. -/
def store (m : Machine σ) (form : Addressing) (width : Nat) (x : Instruction) : Step σ :=
  m.storeBytes (m.addressOf form width x) (Memory.numberBytes width (m.get (movedRegister form x)))

/-- Load a vector register. -/
def loadLanes (m : Machine σ) (form : Addressing) (x : Instruction) : Step σ :=
  match m.memory.load (m.addressOf form Lanes.byteCount x) Lanes.byteCount with
  | .error e => m.refuse (.memory e)
  | .ok bytes => (m.setVector (movedRegister form x) (Lanes.ofBytes bytes)).done

/-- Store a vector register. -/
def storeLanes (m : Machine σ) (form : Addressing) (x : Instruction) : Step σ :=
  m.storeBytes (m.addressOf form Lanes.byteCount x) (m.registers.vector (movedRegister form x)).bytes

/-- The bits of an address that a jump replaces. -/
def jumpMask : UInt64 := (Word.addrMaskJ.toUInt64 <<< 2) ||| 3

/-- The target of a jump: the region of the instruction and the address in the word. -/
def jumpTarget (pc : UInt64) (imm : Int64) : UInt64 := (pc &&& ~~~jumpMask) ||| imm.toUInt64

/-- The value of a register after a slice of it is replaced. Slice zero is sign extended into the whole
    register. -/
def withSlice (before : UInt64) (k : UInt64) (imm : Int64) : UInt64 :=
  let value := imm.toUInt64 &&& 0xffff
  let shift := 16 * (k &&& 3)
  if shift = 0 then (signExtend value 16).toUInt64
  else (before &&& ~~~((0xffff : UInt64) <<< shift)) ||| (value <<< shift)

/-- Keep the address after the instruction, if it links. -/
def link (m : Machine σ) (yes : Bool) : Machine σ :=
  if yes then m.set Register.ra m.registers.pc else m

/-- Read a kernel register. -/
def fromKernel (m : Machine σ) (x : Instruction) : Step σ :=
  match m.registers.kernel? x.rt with
  | none => m.refuse (.kernelRegister x.rt)
  | some value => (m.set x.rd value).done

/-- Write a kernel register. -/
def toKernel (m : Machine σ) (x : Instruction) : Step σ :=
  match m.registers.kernel? x.rd with
  | none => m.refuse (.kernelRegister x.rd)
  | some _ => { m with registers := m.registers.setKernel x.rd (m.get x.rs) }.done

variable [FileSystem σ]

/-- Perform the action of the instruction at `pc`. The program counter has already moved on. -/
def perform (m : Machine σ) (pc : UInt64) (x : Instruction) : Action → Step σ
  | .compute f => (m.set x.rd (f (m.get x.rs) (m.get x.rt))).done
  | .computeImmediate f => (m.set x.rt (f (m.get x.rs) x.imm.toUInt64)).done
  | .computePair f =>
    let (hi, lo) := f (m.get x.rs) (m.get x.rt)
    { m with registers := { m.registers with hi := hi, lo := lo } }.done
  | .fromHi => (m.set x.rd m.registers.hi).done
  | .fromLo => (m.set x.rd m.registers.lo).done
  | .toHi => { m with registers := { m.registers with hi := m.get x.rs } }.done
  | .toLo => { m with registers := { m.registers with lo := m.get x.rs } }.done
  | .branch test =>
    if test (m.get x.rs) (m.get x.rt) then (m.goTo (m.registers.pc + (x.imm * 4).toUInt64)).done
    else m.done
  | .jump linked => ((m.link linked).goTo (jumpTarget pc x.imm)).done
  | .jumpRegister linked => ((m.link linked).goTo (m.get x.rs)).done
  | .slice => (m.set x.rd (withSlice (m.get x.rd) x.mnemonic.func.toUInt64 x.imm)).done
  | .load form width signed => m.load form width signed x
  | .store form width => m.store form width x
  | .fromKernel => m.fromKernel x
  | .toKernel => m.toKernel x
  | .lanes f => (m.setVector x.rd (f (m.registers.vector x.rs) (m.registers.vector x.rt))).done
  | .lanesBy f => (m.setVector x.rd (f (m.registers.vector x.rs) (m.get x.rt))).done
  | .reduce f => (m.set x.rd (f (m.registers.vector x.rs))).done
  | .broadcast f => (m.setVector x.rd (f (m.get x.rs))).done
  | .pick f => (m.set x.rd (f (m.registers.vector x.rs) (m.get x.rt))).done
  | .replace f => (m.setVector x.rd (f (m.registers.vector x.rd) (m.get x.rt) (m.get x.rs))).done
  | .loadLanes form => m.loadLanes form x
  | .storeLanes form => m.storeLanes form x
  | .service => m.performService
  | .idle => m.done

/-- Count an instruction that was executed. -/
def tally (m : Machine σ) : Machine σ :=
  let clocks := m.clocks + 1
  { m with clocks := clocks, registers := m.registers.setKernel Register.time clocks }

/-- The instruction at an address, its word and its action. -/
def instructionAt (m : Machine σ) (pc : UInt64) : Except Error (Word × Instruction × Action) :=
  match m.memory.fetch pc with
  | .error e => .error (.memory e)
  | .ok word =>
    match Instruction.decode m.table word with
    | .error e => .error (.instruction e)
    | .ok x =>
      match m.actions.lookup x.mnemonic.name with
      | none => .error (.noAction x.mnemonic.name)
      | some action => .ok (word, x, action)

/-- Execute an instruction that was found at `pc`. -/
def execute (m : Machine σ) (pc : UInt64) (word : Word) (x : Instruction) (action : Action) : Step σ :=
  let step := ((m.note (.clock pc word x)).goTo (pc + 4)).perform pc x action
  { step with machine := step.machine.tally }

/-- Execute one instruction. -/
def clock (m : Machine σ) : Step σ :=
  if m.halted then m.refuse .halted
  else
    let pc := m.registers.pc
    match m.instructionAt pc with
    | .error e => m.refuse e
    | .ok (word, x, action) => m.execute pc word x action

end Machine

end VectorRisc
