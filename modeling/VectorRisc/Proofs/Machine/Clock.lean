/-
Module: VectorRisc.Proofs.Machine.Clock
Layer: Proofs
Purpose: What one clock does with the instructions that take a label, and what the four clocks of a loaded
  address do. The machine is about to execute an instruction if memory has it at the program counter.
Imports: Mathlib.Tactic, VectorRisc.Proofs.Instruction.Target, VectorRisc.Proofs.Machine.Change,
  VectorRisc.Proofs.Machine.Target
Trusted boundary: none
Main exports: Machine.Standard, Machine.Faces, Machine.StandsOn, Machine.clocks?,
  Machine.Faces.clock_branch, Machine.Faces.clock_jump, Machine.Faces.clock_slice, Machine.clocks?_slices
Open obligations: none
-/
import Mathlib.Tactic
import VectorRisc.Proofs.Instruction.Target
import VectorRisc.Proofs.Machine.Change
import VectorRisc.Proofs.Machine.Target

namespace VectorRisc

/-! ### Registers -/

namespace Registers

/-- A register that is written has the value. -/
theorem get_set_self (regs : Registers) {r : UInt8} (hr : r ≠ Register.zero) (value : UInt64) :
    (regs.set r value).get r = value := by
  simp [set, get, hr]

@[simp] theorem set_pc (regs : Registers) (r : UInt8) (value : UInt64) :
    (regs.set r value).pc = regs.pc := by
  rw [set]
  split <;> rfl

/-- A write depends on the scalar registers only. -/
theorem get_set_congr {regs other : Registers} (h : regs.scalars = other.scalars) (r : UInt8)
    (value : UInt64) (q : UInt8) : (regs.set r value).get q = (other.set r value).get q := by
  simp only [set]
  split <;> simp only [get, h]

end Registers

/-! ### The actions of instructions with a label -/

namespace Mnemonic

/-- A branch goes to its target if a test of its registers holds. -/
theorem branch_action : ∀ m ∈ branches, ∃ test, Action.all.lookup m.name = some (.branch test) := by
  intro m hm
  simp only [branches, List.mem_cons, List.not_mem_nil, or_false] at hm
  rcases hm with rfl | rfl | rfl | rfl | rfl | rfl <;> exact ⟨_, rfl⟩

/-- A jump goes to its target; the one that links is `jal`. -/
theorem addressJump_action : ∀ m ∈ addressJumps,
    Action.all.lookup m.name = some (.jump (m.name = Text.ofString "jal")) := by
  have hjumps : addressJumps = [jump "j" 0x03 [.target], jump "jal" 0x04 [.target]] := by decide +kernel
  intro m hm
  simp only [hjumps, List.mem_cons, List.not_mem_nil, or_false] at hm
  rcases hm with rfl | rfl <;> rfl

/-- The instructions that load slices. -/
theorem immediateSlice_action : ∀ m ∈ immediateSlices, Action.all.lookup m.name = some .slice := by
  intro m hm
  simp only [immediateSlices, List.mem_cons, List.not_mem_nil, or_false] at hm
  rcases hm with rfl | rfl | rfl | rfl <;> rfl

/-- The instruction that loads a slice has the number of the slice for its function code. -/
theorem immediateSlice_name : ∀ m ∈ immediateSlices, m.func.toNat < 4 ∧
    m.name = Text.ofString (Assembler.sliceName m.func.toNat) := by
  decide +kernel

end Mnemonic

namespace Machine

variable {σ : Type}

/-- The machine decodes and acts by the standard tables. -/
structure Standard (m : Machine σ) : Prop where
  table : m.table = Table.standard
  actions : m.actions = Action.all

theorem Standard.change {m after : Machine σ} (h : m.Standard) (hchange : m.Change after) :
    after.Standard :=
  ⟨hchange.table.trans h.table, hchange.actions.trans h.actions⟩

theorem Standard.changes {start m : Machine σ} (h : start.Standard)
    (hrun : Relation.ReflTransGen Change start m) : m.Standard := by
  induction hrun with
  | refl => exact h
  | tail _ hchange ih => exact ih.change hchange

@[simp] theorem note_registers (m : Machine σ) (event : Event) :
    (m.note event).registers = m.registers := by
  rw [note]
  split <;> rfl

@[simp] theorem note_halted (m : Machine σ) (event : Event) : (m.note event).halted = m.halted := by
  rw [note]
  split <;> rfl

@[simp] theorem get_note (m : Machine σ) (event : Event) (r : UInt8) :
    (m.note event).get r = m.get r := by
  rw [get, get, note_registers]

/-- The machine is about to execute an instruction. -/
structure Faces (m : Machine σ) (x : Instruction) (action : Action) : Prop where
  running : m.halted = false
  found : ∃ word, m.instructionAt m.registers.pc = .ok (word, x, action)

/-- A word that memory has at the program counter is executed next. -/
theorem Standard.faces {m : Machine σ} (h : m.Standard) (hrunning : m.halted = false) {word : Word}
    (hfetch : m.memory.fetch m.registers.pc = .ok word) {x : Instruction}
    (hdecode : Instruction.decode Table.standard word = .ok x) {action : Action}
    (haction : Action.all.lookup x.mnemonic.name = some action) : m.Faces x action := by
  refine ⟨hrunning, word, ?_⟩
  simp only [instructionAt, hfetch, h.table, hdecode, h.actions, haction]

/-- The machine has come to words in its memory. -/
structure StandsOn (m : Machine σ) (words : List Word) : Prop where
  standard : m.Standard
  running : m.halted = false
  code : ∀ i w, words[i]? = some w → m.memory.fetch (m.registers.pc + UInt64.ofNat (4 * i)) = .ok w

/-- A word that the machine has come to is executed next. -/
theorem StandsOn.faces {m : Machine σ} {w : Word} (h : m.StandsOn [w]) {x : Instruction}
    (hdecode : Instruction.decode Table.standard w = .ok x) {action : Action}
    (haction : Action.all.lookup x.mnemonic.name = some action) : m.Faces x action := by
  have hfetch := h.code 0 w rfl
  have hhere : m.registers.pc + UInt64.ofNat (4 * 0) = m.registers.pc := UInt64.add_zero _
  rw [hhere] at hfetch
  exact h.standard.faces h.running hfetch hdecode haction

section Host

variable [FileSystem σ]

namespace Faces

variable {m : Machine σ} {x : Instruction}

theorem clock_eq {action : Action} (h : m.Faces x action) :
    ∃ word, m.clock = m.execute m.registers.pc word x action := by
  obtain ⟨word, hfound⟩ := h.found
  refine ⟨word, ?_⟩
  simp only [clock, h.running, Bool.false_eq_true, if_false, hfound]

/-- A branch whose test holds goes on at its distance from the next instruction. -/
theorem clock_branch {test : UInt64 → UInt64 → Bool} (h : m.Faces x (.branch test))
    (htest : test (m.get x.rs) (m.get x.rt) = true) :
    m.clock.error = none ∧
      m.clock.machine.registers.pc = m.registers.pc + 4 + (x.imm * 4).toUInt64 := by
  obtain ⟨word, hclock⟩ := h.clock_eq
  have hready : test (((m.note (.clock m.registers.pc word x)).goTo (m.registers.pc + 4)).get x.rs)
      (((m.note (.clock m.registers.pc word x)).goTo (m.registers.pc + 4)).get x.rt) = true := by
    rw [← get_note m (.clock m.registers.pc word x) x.rs,
      ← get_note m (.clock m.registers.pc word x) x.rt] at htest
    exact htest
  simp only [hclock, execute, perform, hready, if_true]
  exact ⟨rfl, rfl⟩

/-- A jump goes on in the region of the instruction, and leaves the address after it if it links. -/
theorem clock_jump {linked : Bool} (h : m.Faces x (.jump linked)) :
    m.clock.error = none ∧ m.clock.machine.registers.pc = jumpTarget m.registers.pc x.imm ∧
      (linked = true → m.clock.machine.get Register.ra = m.registers.pc + 4) := by
  obtain ⟨word, hclock⟩ := h.clock_eq
  simp only [hclock, execute, perform]
  refine ⟨rfl, rfl, ?_⟩
  rintro rfl
  exact Registers.get_set_self _ (by decide) _

/-- A slice is put into its register; everything else goes on to the next instruction. -/
theorem clock_slice (h : m.Faces x .slice) :
    m.clock.error = none ∧ m.clock.machine.halted = false ∧ m.clock.machine.memory = m.memory ∧
      m.clock.machine.registers.pc = m.registers.pc + 4 ∧
      ∀ r, m.clock.machine.get r =
        (m.set x.rd (withSlice (m.get x.rd) x.mnemonic.func.toUInt64 x.imm)).get r := by
  obtain ⟨word, hclock⟩ := h.clock_eq
  simp only [hclock, execute, perform]
  refine ⟨rfl, ?_, ?_, ?_, ?_⟩
  · exact (note_halted m _).trans h.running
  · exact note_memory m _
  · exact Registers.set_pc _ _ _
  · intro r
    have hscalars : ((m.note (.clock m.registers.pc word x)).goTo
        (m.registers.pc + 4)).registers.scalars = m.registers.scalars := by
      simp only [goTo, note_registers]
    rw [← get_note m (.clock m.registers.pc word x) x.rd]
    exact Registers.get_set_congr hscalars _ _ r

end Faces

/-! ### Loading an address -/

/-- The machine after a number of clocks that all succeed. -/
def clocks? : Nat → Machine σ → Option (Machine σ)
  | 0, m => some m
  | n + 1, m => if m.clock.error = none then clocks? n m.clock.machine else none

theorem clocks?_one {m : Machine σ} (h : m.clock.error = none) : m.clocks? 1 = some m.clock.machine := by
  simp [clocks?, h]

/-- The instruction loads a slice of a value into a register. -/
structure LoadsSlice (x : Instruction) (rd : UInt8) (k : Nat) (value : UInt64) : Prop where
  mnemonic : x.mnemonic ∈ Mnemonic.immediateSlices
  func : x.mnemonic.func = UInt16.ofNat k
  rd : x.rd = rd
  imm : x.imm = (sliceOf value k).toUInt64.toInt64

/-- A slice that was loaded is in the register, and so are the ones below it. -/
theorem LoadsSlice.sliceOf_eq {x : Instruction} {rd : UInt8} {k : Nat} {value before : UInt64}
    (h : LoadsSlice x rd k value) (hk : k < 4) (hbelow : ∀ n < k, sliceOf before n = sliceOf value n) :
    ∀ n < k + 1, sliceOf (withSlice before x.mnemonic.func.toUInt64 x.imm) n = sliceOf value n := by
  have hfunc : x.mnemonic.func.toUInt64 = UInt64.ofNat k := by
    rw [h.func]
    interval_cases k <;> rfl
  intro n hn
  rw [hfunc, h.imm]
  rcases Nat.eq_zero_or_pos k with rfl | hpos
  · obtain rfl : n = 0 := by omega
    rw [show UInt64.ofNat 0 = 0 from rfl, withSlice_zero, sliceOf_toInt64]
  · rw [sliceOf_withSlice before _ hpos hk (by omega)]
    split
    · rename_i hsame
      rw [hsame]
    · exact hbelow n (by omega)

/-- Instructions that load the slices of a value from the `k`th on, one after the other, complete it. -/
theorem clocks?_slices {rd : UInt8} (hrd : rd ≠ Register.zero) {value : UInt64} {k n : Nat}
    (hk : k + n ≤ 4) {m : Machine σ} (hstandard : m.Standard) (hrunning : m.halted = false)
    (hcode : ∀ i < n, ∃ word x, m.memory.fetch (m.registers.pc + UInt64.ofNat (4 * i)) = .ok word ∧
      Instruction.decode Table.standard word = .ok x ∧ LoadsSlice x rd (k + i) value)
    (hbelow : ∀ i < k, sliceOf (m.get rd) i = sliceOf value i) :
    ∃ next, m.clocks? n = some next ∧ ∀ i < k + n, sliceOf (next.get rd) i = sliceOf value i := by
  induction n generalizing k m with
  | zero => exact ⟨m, rfl, hbelow⟩
  | succ n ih =>
      obtain ⟨word, x, hfetch, hdecode, hx⟩ := hcode 0 (by omega)
      have hhere : m.registers.pc + UInt64.ofNat (4 * 0) = m.registers.pc := UInt64.add_zero _
      rw [hhere] at hfetch
      have hfaces := hstandard.faces hrunning hfetch hdecode (Mnemonic.immediateSlice_action _ hx.mnemonic)
      obtain ⟨herror, hhalted, hmemory, hpc, hget⟩ := hfaces.clock_slice
      have hvalue : m.clock.machine.get rd =
          withSlice (m.get rd) x.mnemonic.func.toUInt64 x.imm := by
        rw [hget rd, hx.rd]
        exact Registers.get_set_self _ hrd _
      have hrest : ∀ i < n, ∃ word x,
          m.clock.machine.memory.fetch (m.clock.machine.registers.pc + UInt64.ofNat (4 * i)) = .ok word ∧
          Instruction.decode Table.standard word = .ok x ∧ LoadsSlice x rd (k + 1 + i) value := by
        intro i hi
        obtain ⟨word, x, hfetch, hdecode, hx⟩ := hcode (i + 1) (by omega)
        refine ⟨word, x, ?_, hdecode, ?_⟩
        · rw [hmemory, hpc, UInt64.add_assoc]
          rwa [Nat.mul_add, UInt64.ofNat_add, UInt64.add_comm (UInt64.ofNat (4 * i))] at hfetch
        · rwa [← Nat.add_assoc, Nat.add_right_comm] at hx
      have hloaded : ∀ i < k + 1, sliceOf (m.clock.machine.get rd) i = sliceOf value i := by
        rw [hvalue]
        exact hx.sliceOf_eq (by omega) hbelow
      obtain ⟨next, hnext, hslices⟩ :=
        ih (by omega) (hstandard.change (clock_change m)) hhalted hrest hloaded
      refine ⟨next, ?_, fun i hi => hslices i (by omega)⟩
      simp only [clocks?, herror, if_true, hnext]

end Host

end Machine

end VectorRisc
