/-
Module: VectorRisc.Proofs.Machine.Effect
Layer: Proofs
Purpose: The whole effect of one clock, on registers, memory and all else. A clock that has reached its
  instruction moves the program counter and the time on, performs the action, and leaves everything that
  the action does not touch.
Imports: Mathlib.Tactic, VectorRisc.Proofs.Machine.Ending
Trusted boundary: none
Main exports: Machine.ComesTo, Machine.elsewhere, Machine.onward, Machine.Leaves, Machine.ComesTo.clock_eq,
  Machine.ComesTo.leaves_set, Machine.ComesTo.leaves_setVector
Open obligations: none
-/
import Mathlib.Tactic
import VectorRisc.Proofs.Machine.Ending

namespace VectorRisc

/-- Scalar and kernel registers are written independently. -/
theorem Registers.setKernel_set (regs : Registers) (r k : UInt8) (value time : UInt64) :
    (regs.set r value).setKernel k time = (regs.setKernel k time).set r value := by
  rw [set, set]
  split <;> rfl

namespace Machine

variable {σ : Type}

/-- The machine is about to execute an instruction of a name. -/
structure ComesTo (m : Machine σ) (name : String) (x : Instruction) : Prop where
  standard : m.Standard
  faces : ∃ action, m.Faces x action
  name : x.mnemonic.name = Text.ofString name

/-- The machine at another place of its code and with another log. -/
def elsewhere (m : Machine σ) (pc : UInt64) (log : Array Event) : Machine σ :=
  { m with registers := { m.registers with pc := pc }, log := log }

@[simp] theorem get_elsewhere (m : Machine σ) (pc : UInt64) (log : Array Event) (r : UInt8) :
    (m.elsewhere pc log).get r = m.get r := rfl

@[simp] theorem vector_elsewhere (m : Machine σ) (pc : UInt64) (log : Array Event) (r : UInt8) :
    (m.elsewhere pc log).registers.vector r = m.registers.vector r := rfl

@[simp] theorem memory_elsewhere (m : Machine σ) (pc : UInt64) (log : Array Event) :
    (m.elsewhere pc log).memory = m.memory := rfl

@[simp] theorem argument_elsewhere (m : Machine σ) (pc : UInt64) (log : Array Event) (n : UInt8) :
    (m.elsewhere pc log).argument n = m.argument n := rfl

@[simp] theorem addressOf_elsewhere (m : Machine σ) (pc : UInt64) (log : Array Event) (form : Addressing)
    (size : Nat) (x : Instruction) :
    (m.elsewhere pc log).addressOf form size x = m.addressOf form size x := by
  cases form <;> rfl

theorem set_elsewhere (m : Machine σ) (pc : UInt64) (log : Array Event) (r : UInt8) (value : UInt64) :
    (m.elsewhere pc log).set r value = (m.set r value).elsewhere pc log := by
  simp only [set, elsewhere, Registers.set]
  split <;> rfl

theorem storeBytes_elsewhere (m : Machine σ) (pc : UInt64) (log : Array Event) (addr : UInt64)
    (bytes : List UInt8) : (m.elsewhere pc log).storeBytes addr bytes =
      ⟨(m.storeBytes addr bytes).machine.elsewhere pc log, (m.storeBytes addr bytes).error⟩ := by
  simp only [storeBytes]
  cases hfault : m.memory.storeFault? addr bytes.length with
  | none => simp only [elsewhere, hfault, done]
  | some e => simp only [elsewhere, hfault, refuse]

theorem ready_elsewhere (m : Machine σ) (word : Word) (x : Instruction) :
    ∃ log, m.ready word x = m.elsewhere (m.registers.pc + 4) log := by
  rw [ready, note]
  split
  · exact ⟨_, rfl⟩
  · exact ⟨m.log, rfl⟩

/-- The registers after a clock that only goes on: the program counter and the time have moved. -/
def onward (m : Machine σ) : Registers :=
  ({ m.registers with pc := m.registers.pc + 4 } : Registers).setKernel Register.time (m.clocks + 1)

/-- Counting an instruction that has set a scalar register. -/
theorem tally_set (m : Machine σ) (log : Array Event) (r : UInt8) (value : UInt64) :
    ((m.elsewhere (m.registers.pc + 4) log).set r value).tally =
      { m with registers := m.onward.set r value, clocks := m.clocks + 1, log := log } := by
  simp only [tally, set, Registers.setKernel_set]
  rfl

variable [FileSystem σ]

/-- A clock succeeds and leaves these registers and this memory. It has been counted, and noted in the log
    if that is asked for; all else is as it was. -/
def Leaves (m : Machine σ) (registers : Registers) (memory : Memory) : Prop :=
  ∃ log, m.clock = ⟨{ m with
    registers := registers, memory := memory, clocks := m.clocks + 1, log := log }, none⟩

namespace ComesTo

variable {m : Machine σ} {name : String} {x : Instruction}

/-- The clock performs the action of the instruction at the next address, and is counted. -/
theorem clock_eq (h : m.ComesTo name x) {action : Action}
    (haction : Action.all.lookup (Text.ofString name) = some action) :
    ∃ log, m.clock =
      ⟨((m.elsewhere (m.registers.pc + 4) log).perform m.registers.pc x action).machine.tally,
        ((m.elsewhere (m.registers.pc + 4) log).perform m.registers.pc x action).error⟩ := by
  obtain ⟨found, hfaces⟩ := h.faces
  obtain ⟨word, hclock⟩ := hfaces.clock_eq
  obtain ⟨_, hfound⟩ := hfaces.found
  obtain ⟨-, -, hacts⟩ := instructionAt_eq_ok hfound
  rw [h.standard.actions, h.name, haction] at hacts
  cases hacts
  obtain ⟨log, hready⟩ := ready_elsewhere m word x
  refine ⟨log, ?_⟩
  rw [hclock, ← hready]
  rfl

/-- An action that sets a scalar register. -/
theorem leaves_set (h : m.ComesTo name x) {action : Action}
    (haction : Action.all.lookup (Text.ofString name) = some action) {r : UInt8} {value : UInt64}
    (hperform : ∀ log, (m.elsewhere (m.registers.pc + 4) log).perform m.registers.pc x action =
      ((m.elsewhere (m.registers.pc + 4) log).set r value).done) :
    m.Leaves (m.onward.set r value) m.memory := by
  obtain ⟨log, hclock⟩ := h.clock_eq haction
  refine ⟨log, ?_⟩
  rw [hclock, hperform, done, tally_set]

/-- An action that sets a vector register. -/
theorem leaves_setVector (h : m.ComesTo name x) {action : Action}
    (haction : Action.all.lookup (Text.ofString name) = some action) {r : UInt8} {value : Lanes}
    (hperform : ∀ log, (m.elsewhere (m.registers.pc + 4) log).perform m.registers.pc x action =
      ((m.elsewhere (m.registers.pc + 4) log).setVector r value).done) :
    m.Leaves (m.onward.setVector r value) m.memory := by
  obtain ⟨log, hclock⟩ := h.clock_eq haction
  refine ⟨log, ?_⟩
  rw [hclock, hperform]
  rfl

end ComesTo

end Machine

end VectorRisc
