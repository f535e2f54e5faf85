/-
Module: VectorRisc.Proofs.Machine.Run
Layer: Proofs
Purpose: What holds of the registers in every state that a run from a reset reaches, whatever the memory,
  the files, the instruction table and the actions: register zero is zero, the time is the number of
  clocks that reached execution, and a machine that has halted stays as it is.
Imports: Mathlib.Tactic, VectorRisc.Proofs.Machine.Ending
Trusted boundary: none
Main exports: Machine.clocked, Machine.executed, Machine.Timed, Machine.clock_timed,
  Machine.clocked_of_halted, Machine.clocked_registers
Open obligations: none
-/
import Mathlib.Tactic
import VectorRisc.Proofs.Machine.Ending

namespace VectorRisc

namespace Machine

variable {σ : Type} [FileSystem σ]

/-- The machine after a number of clocks, of which any may have failed. -/
def clocked : Nat → Machine σ → Machine σ
  | 0, m => m
  | n + 1, m => clocked n m.clock.machine

/-- How many of a number of clocks reach execution. -/
def executed : Nat → Machine σ → Nat
  | 0, _ => 0
  | n + 1, m => m.executes.toNat + executed n m.clock.machine

/-- A property that every clock keeps holds after any number of clocks. -/
theorem clocked_induction {P : Machine σ → Prop} (hstep : ∀ m : Machine σ, P m → P m.clock.machine)
    {m : Machine σ} (hm : P m) (n : Nat) : P (m.clocked n) := by
  induction n generalizing m with
  | zero => exact hm
  | succ n ih => exact ih (hstep m hm)

/-! ### One clock -/

/-- Register zero is zero and the kernel's time is the number of clocks. -/
structure Timed (m : Machine σ) : Prop where
  zero : m.registers.get Register.zero = 0
  time : m.registers.kernel? Register.time = some m.clocks

omit [FileSystem σ] in
/-- Counting an instruction sets the time, whatever the instruction has left there. -/
theorem tally_time (m : Machine σ) : m.tally.registers.kernel? Register.time = some m.tally.clocks := by
  simp [tally, Registers.kernel?, Registers.setKernel, Register.time]

/-- An action that was performed has left register zero and the clocks alone. -/
theorem perform_kept (m : Machine σ) (pc : UInt64) {x : Instruction} (hx : x.Narrow) (action : Action) :
    (m.perform pc x action).machine.registers.get Register.zero = m.registers.get Register.zero ∧
      (m.perform pc x action).machine.clocks = m.clocks := by
  cases perform_ended m pc hx action with
  | refused cause herror hblamed hsame =>
      obtain ⟨files, log, hsame⟩ := hsame
      rw [hsame]
      exact ⟨rfl, rfl⟩
  | done herror hclocks hregisters => exact ⟨hregisters.zero, hclocks⟩

/-- A clock keeps register zero, and counts if it reaches execution. -/
theorem clock_kept (m : Machine σ) :
    m.clock.machine.registers.get Register.zero = m.registers.get Register.zero ∧
      m.clock.machine.clocks = m.clocks + UInt64.ofNat m.executes.toNat := by
  rcases clock_cases m with ⟨hstalled, hsame, -⟩ | ⟨hreached, -, word, x, action, hfound, -, hnext⟩
  · rw [hsame, hstalled]
    exact ⟨rfl, (UInt64.add_zero _).symm⟩
  · obtain ⟨-, hdecode, -⟩ := instructionAt_eq_ok hfound
    obtain ⟨hzero, hclocks⟩ :=
      perform_kept (m.ready word x) m.registers.pc (Instruction.narrow_of_decode hdecode) action
    obtain ⟨files, log, hready⟩ := ready_eq m word x
    rw [hnext, hreached]
    rw [hready] at hzero hclocks ⊢
    exact ⟨hzero, congrArg (· + 1) hclocks⟩

theorem clock_timed {m : Machine σ} (h : m.Timed) : m.clock.machine.Timed := by
  refine ⟨(clock_kept m).1.trans h.zero, ?_⟩
  rcases clock_cases m with ⟨-, hsame, -⟩ | ⟨-, -, word, x, action, -, -, hnext⟩
  · rw [hsame]
    exact h.time
  · rw [hnext]
    exact tally_time _

/-- A machine that has halted refuses every clock and stays as it is. -/
theorem clock_of_halted {m : Machine σ} (h : m.halted = true) : m.clock = ⟨m, some .halted⟩ := by
  rw [clock, if_pos h]
  rfl

/-! ### Runs -/

/-- A reset leaves memory, the tables and the entry. -/
theorem reset_eq (m : Machine σ) : ∃ files log, m.reset =
    { m with registers := freshRegisters m.entry, halted := false, exitCode := 0, clocks := 0,
             files := files, log := log } := by
  obtain ⟨files, log, hnoted⟩ := note_eq ({ m with
    registers := freshRegisters m.entry
    halted := false
    exitCode := 0
    clocks := 0
    files := m.files.reset } : Machine σ) (.reset m.entry)
  exact ⟨files, log, hnoted⟩

theorem reset_timed (m : Machine σ) : m.reset.Timed := by
  obtain ⟨files, log, hreset⟩ := reset_eq m
  rw [hreset]
  exact ⟨rfl, rfl⟩

theorem clocked_clocks (n : Nat) (m : Machine σ) :
    (m.clocked n).clocks = m.clocks + UInt64.ofNat (m.executed n) := by
  induction n generalizing m with
  | zero => exact (UInt64.add_zero _).symm
  | succ n ih =>
      rw [clocked, executed, ih, (clock_kept m).2, UInt64.ofNat_add, UInt64.add_assoc]

theorem clocked_of_halted {m : Machine σ} (h : m.halted = true) (n : Nat) : m.clocked n = m := by
  induction n with
  | zero => rfl
  | succ n ih => rw [clocked, clock_of_halted h, ih]

/-- In every state that clocks reach from a reset, register zero is zero, the time is the number of
    clocks, and that is the number of clocks that reached execution, as a 64-bit value. Once the machine
    has halted, every clock is refused and nothing changes any more. -/
theorem clocked_registers (before : Machine σ) (n : Nat) :
    let m := before.reset.clocked n
    m.registers.get Register.zero = 0 ∧
    m.registers.kernel? Register.time = some m.clocks ∧
    m.clocks.toNat = before.reset.executed n % 2 ^ 64 ∧
    (m.halted = true → ∀ k, (m.clocked k).clock = ⟨m, some .halted⟩) := by
  intro m
  have htimed : m.Timed := clocked_induction (fun _ => clock_timed) (reset_timed before) n
  refine ⟨htimed.zero, htimed.time, ?_, ?_⟩
  · have hstart : before.reset.clocks = 0 := by
      obtain ⟨files, log, hreset⟩ := reset_eq before
      rw [hreset]
    rw [show m.clocks = _ from clocked_clocks n before.reset, hstart, UInt64.zero_add, UInt64.toNat_ofNat']
  · intro hhalted k
    rw [clocked_of_halted hhalted k, clock_of_halted hhalted]

end Machine

end VectorRisc
