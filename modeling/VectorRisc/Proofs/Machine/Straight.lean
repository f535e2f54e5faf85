/-
Module: VectorRisc.Proofs.Machine.Straight
Layer: Proofs
Purpose: Straight-line code. A machine obeys a word as a clock does that fetched it. Where every word of a
  list passes on to the next one, obeying the list is what as many clocks do from the first of them, as
  long as the code itself is not written to.
Imports: Mathlib.Tactic, VectorRisc.Proofs.Assembler.Invariant, VectorRisc.Proofs.Machine.Ending
Trusted boundary: none
Main exports: Registers.Agree, Machine.obey, Machine.obeyAll?, Machine.clock_eq_obey, Machine.Reads,
  Machine.Passes, Machine.Runs, Machine.Runs.cons, Assembler.codesOf
Open obligations: none
-/
import Mathlib.Tactic
import VectorRisc.Proofs.Assembler.Invariant
import VectorRisc.Proofs.Machine.Ending

namespace VectorRisc

/-! ### Registers that a program sees -/

namespace Registers

variable {regs other third : Registers}

/-- Registers that a program cannot tell apart: all are the same but the program counter and those of the
    kernel, where the clocks are counted. -/
structure Agree (regs other : Registers) : Prop where
  scalars : regs.scalars = other.scalars
  hi : regs.hi = other.hi
  lo : regs.lo = other.lo
  vectors : regs.vectors = other.vectors

namespace Agree

theorem refl (regs : Registers) : regs.Agree regs := ⟨rfl, rfl, rfl, rfl⟩

theorem trans (h : regs.Agree other) (h' : other.Agree third) : regs.Agree third :=
  ⟨h.scalars.trans h'.scalars, h.hi.trans h'.hi, h.lo.trans h'.lo, h.vectors.trans h'.vectors⟩

theorem get_eq (h : regs.Agree other) (r : UInt8) : regs.get r = other.get r := by
  rw [get, get, h.scalars]

/-- A write makes no difference. -/
theorem set (h : regs.Agree other) (r : UInt8) (value : UInt64) :
    (regs.set r value).Agree (other.set r value) := by
  simp only [Registers.set]
  split
  · exact h
  · exact ⟨by rw [h.scalars], h.hi, h.lo, h.vectors⟩

end Agree

/-- A register has the value that was written to it, and any other the one it had. -/
theorem get_set (regs : Registers) {r : UInt8} (hr : r ≠ Register.zero) (value : UInt64) (q : UInt8) :
    (regs.set r value).get q = if place q = place r then value else regs.get q := by
  simp only [Registers.set, hr, if_false, get, Fin.getElem_fin, Vector.getElem_set, Fin.ext_iff]
  by_cases hsame : (place r).val = (place q).val
  · rw [if_pos hsame, if_pos hsame.symm]
  · rw [if_neg hsame, if_neg (Ne.symm hsame)]

/-- The last write to a register counts. -/
theorem set_set (regs : Registers) (r : UInt8) (value last : UInt64) :
    (regs.set r value).set r last = regs.set r last := by
  simp only [Registers.set]
  split
  · rfl
  · simp

/-- A register that is written with its own value is as before. -/
theorem set_get (regs : Registers) (r : UInt8) : regs.set r (regs.get r) = regs := by
  simp only [Registers.set, get]
  split
  · rfl
  · simp

/-- The registers that there are have places of their own. -/
theorem place_eq_iff {q r : UInt8} (hq : q < 32) (hr : r < 32) : place q = place r ↔ q = r := by
  have hq' : q.toNat < 32 := hq
  have hr' : r.toNat < 32 := hr
  rw [← UInt8.toNat_inj, Fin.ext_iff]
  simp only [place]
  omega

end Registers

namespace Machine

variable {σ : Type}

/-! ### Words that are obeyed -/

@[simp] theorem ready_registers (m : Machine σ) (word : Word) (x : Instruction) :
    (m.ready word x).registers = { m.registers with pc := m.registers.pc + 4 } := by
  rw [ready, goTo, note_registers]

@[simp] theorem ready_memory (m : Machine σ) (word : Word) (x : Instruction) :
    (m.ready word x).memory = m.memory := note_memory m _

@[simp] theorem get_ready (m : Machine σ) (word : Word) (x : Instruction) (r : UInt8) :
    (m.ready word x).get r = m.get r := by
  rw [get, ready_registers]
  rfl

/-- The machine has a meaning for a word. -/
structure Reads (m : Machine σ) (word : Word) (x : Instruction) (action : Action) : Prop where
  standard : m.Standard
  running : m.halted = false
  decodes : Instruction.decode Table.standard word = .ok x
  acts : Action.all.lookup x.mnemonic.name = some action

/-- A machine that is about to execute an instruction has a meaning for the word of it. -/
theorem Faces.reads {m : Machine σ} {x : Instruction} {action : Action} (h : m.Faces x action)
    (hstandard : m.Standard) :
    ∃ word, m.memory.fetch m.registers.pc = .ok word ∧ m.Reads word x action := by
  obtain ⟨word, hfound⟩ := h.found
  obtain ⟨hfetch, hdecode, haction⟩ := instructionAt_eq_ok hfound
  rw [hstandard.table] at hdecode
  rw [hstandard.actions] at haction
  exact ⟨word, hfetch, hstandard, h.running, hdecode, haction⟩

variable [FileSystem σ]

/-- What a clock does with the word that it fetched. -/
def obey (m : Machine σ) (word : Word) : Step σ :=
  if m.halted then m.refuse .halted
  else
    match Instruction.decode m.table word with
    | .error e => m.refuse (.instruction e)
    | .ok x =>
      match m.actions.lookup x.mnemonic.name with
      | none => m.refuse (.noAction x.mnemonic.name)
      | some action => m.execute m.registers.pc word x action

/-- The machine after some words that it obeys one by one. -/
def obeyAll? : List Word → Machine σ → Option (Machine σ)
  | [], m => some m
  | word :: words, m =>
    if (m.obey word).error = none then obeyAll? words (m.obey word).machine else none

/-- A clock obeys the word at the program counter. -/
theorem clock_eq_obey {m : Machine σ} {word : Word} (h : m.memory.fetch m.registers.pc = .ok word) :
    m.clock = m.obey word := by
  simp only [clock, obey, instructionAt, h]
  cases hdecode : Instruction.decode m.table word with
  | error e => rfl
  | ok x =>
      cases hlookup : m.actions.lookup x.mnemonic.name with
      | none => simp only [hlookup]
      | some action => simp only [hlookup]

/-- The machine obeys a word and is ready for the one behind it, with the registers and the memory that
    are given. -/
structure Passes (m : Machine σ) (word : Word) (registers : Registers) (memory : Memory)
    (next : Machine σ) : Prop where
  obeys : m.obey word = ⟨next, none⟩
  standard : next.Standard
  running : next.halted = false
  pc : next.registers.pc = m.registers.pc + 4
  registers : next.registers.Agree registers
  memory : next.memory = memory

namespace Reads

variable {m : Machine σ} {word : Word} {x : Instruction}

/-- A word is passed if its action only sets registers other than the program counter, and memory. -/
theorem passes {action : Action} (h : m.Reads word x action) (registers : Registers) (memory : Memory)
    (hpc : registers.pc = m.registers.pc + 4)
    (hperform : (m.ready word x).perform m.registers.pc x action =
      ⟨{ m.ready word x with registers := registers, memory := memory }, none⟩) :
    ∃ next, m.Passes word registers memory next := by
  have hobey : m.obey word =
      ⟨({ m.ready word x with registers := registers, memory := memory } : Machine σ).tally, none⟩ := by
    simp only [ready] at hperform
    simp only [obey, h.running, Bool.false_eq_true, if_false, h.standard.table, h.decodes,
      h.standard.actions, h.acts, execute, hperform, ready]
  refine ⟨_, hobey, ?_, ?_, ?_, ?_, ?_⟩
  · exact ⟨(note_table m _).trans h.standard.table, (note_actions m _).trans h.standard.actions⟩
  · exact (note_halted m _).trans h.running
  · exact hpc
  · exact ⟨rfl, rfl, rfl, rfl⟩
  · rfl

theorem passes_set {action : Action} (h : m.Reads word x action) {r : UInt8} {value : UInt64}
    (hperform : (m.ready word x).perform m.registers.pc x action =
      ((m.ready word x).set r value).done) :
    ∃ next, m.Passes word (m.registers.set r value) m.memory next := by
  have hready : ((m.ready word x).registers.set r value).Agree (m.registers.set r value) := by
    apply Registers.Agree.set
    rw [ready_registers]
    exact ⟨rfl, rfl, rfl, rfl⟩
  obtain ⟨next, hnext⟩ := h.passes ((m.ready word x).registers.set r value) (m.ready word x).memory
    (by simp) hperform
  exact ⟨next, hnext.obeys, hnext.standard, hnext.running, hnext.pc, hnext.registers.trans hready,
    hnext.memory.trans (ready_memory m word x)⟩

/-- A result of two registers goes to its own register. -/
theorem passes_compute {f : UInt64 → UInt64 → UInt64} (h : m.Reads word x (.compute f)) :
    ∃ next, m.Passes word (m.registers.set x.rd (f (m.get x.rs) (m.get x.rt))) m.memory next := by
  apply h.passes_set
  simp only [perform, get_ready]

/-- A result of a register and the immediate goes to its own register. -/
theorem passes_computeImmediate {f : UInt64 → UInt64 → UInt64}
    (h : m.Reads word x (.computeImmediate f)) :
    ∃ next, m.Passes word (m.registers.set x.rt (f (m.get x.rs) x.imm.toUInt64)) m.memory next := by
  apply h.passes_set
  simp only [perform, get_ready]

/-- A pair of results goes to the pair of registers. -/
theorem passes_computePair {f : UInt64 → UInt64 → UInt64 × UInt64} (h : m.Reads word x (.computePair f)) :
    ∃ next, m.Passes word { m.registers with
      hi := (f (m.get x.rs) (m.get x.rt)).1, lo := (f (m.get x.rs) (m.get x.rt)).2 } m.memory next := by
  obtain ⟨next, hnext⟩ := h.passes { m.registers with
    hi := (f (m.get x.rs) (m.get x.rt)).1, lo := (f (m.get x.rs) (m.get x.rt)).2,
    pc := m.registers.pc + 4 } m.memory rfl (by
      simp only [perform, get_ready, ready_registers, done]
      rw [← ready_memory m word x])
  exact ⟨next, hnext.obeys, hnext.standard, hnext.running, hnext.pc,
    hnext.registers.trans ⟨rfl, rfl, rfl, rfl⟩, hnext.memory⟩

/-- A slice is put into its register. -/
theorem passes_slice (h : m.Reads word x .slice) :
    ∃ next, m.Passes word
      (m.registers.set x.rd (withSlice (m.get x.rd) x.mnemonic.func.toUInt64 x.imm)) m.memory next := by
  apply h.passes_set
  simp only [perform, get_ready]

/-- A number that can be loaded goes to its register. -/
theorem passes_load {width : Nat} (h : m.Reads word x (.load .offset width false)) {value : UInt64}
    (hload : m.memory.loadNumber (m.get x.rs + x.imm.toUInt64) width = .ok value) :
    ∃ next, m.Passes word (m.registers.set x.rt value) m.memory next := by
  apply h.passes_set
  simp only [perform, load, addressOf, get_ready, ready_memory, hload, movedRegister, Bool.false_eq_true,
    if_false]

/-- A register is stored where that is not refused. -/
theorem passes_store {width : Nat} (h : m.Reads word x (.store .offset width))
    (hstore : m.memory.storeFault? (m.get x.rs + x.imm.toUInt64)
      (Memory.numberBytes width (m.get x.rt)).length = none) :
    ∃ next, m.Passes word m.registers (m.memory.put (m.get x.rs + x.imm.toUInt64)
      (Memory.numberBytes width (m.get x.rt))) next := by
  obtain ⟨next, hnext⟩ := h.passes (m.ready word x).registers
    (m.memory.put (m.get x.rs + x.imm.toUInt64) (Memory.numberBytes width (m.get x.rt))) (by simp) (by
      simp only [perform, store, storeBytes, addressOf, get_ready, ready_memory, movedRegister, hstore,
        done])
  exact ⟨next, hnext.obeys, hnext.standard, hnext.running, hnext.pc,
    hnext.registers.trans (by rw [ready_registers]; exact ⟨rfl, rfl, rfl, rfl⟩), hnext.memory⟩

end Reads

/-! ### Words that are obeyed one after the other -/

/-- A machine obeys words one after the other. They write to some addresses only, so that clocks do the
    same if the words stand elsewhere in memory. -/
structure Runs (writes : UInt64 → Prop) (m : Machine σ) (words : List Word) (after : Machine σ) :
    Prop where
  obeyed : m.obeyAll? words = some after
  standard : after.Standard
  running : after.halted = false
  clocked : m.StandsOn words → (∀ i < 4 * words.length, ¬writes (m.registers.pc + UInt64.ofNat i)) →
    m.clocks? words.length = some after

namespace Runs

variable {writes : UInt64 → Prop} {m next after : Machine σ} {word : Word} {words : List Word}

theorem nil (writes : UInt64 → Prop) (hstandard : m.Standard) (hrunning : m.halted = false) :
    Runs writes m [] m :=
  ⟨rfl, hstandard, hrunning, fun _ _ => rfl⟩

/-- Words that write to fewer addresses. -/
theorem mono {others : UInt64 → Prop} (h : Runs writes m words after) (hle : ∀ a, writes a → others a) :
    Runs others m words after :=
  ⟨h.obeyed, h.standard, h.running, fun hstands hapart =>
    h.clocked hstands fun i hi hwrites => hapart i hi (hle _ hwrites)⟩

/-- A word that is passed, before others. -/
theorem cons {registers : Registers} {memory : Memory} (hpass : m.Passes word registers memory next)
    (hkept : ∀ addr code, (∀ i < 4, ¬writes (addr + UInt64.ofNat i)) →
      m.memory.fetch addr = .ok code → memory.fetch addr = .ok code)
    (hrest : Runs writes next words after) : Runs writes m (word :: words) after := by
  have herror : (m.obey word).error = none := by rw [hpass.obeys]
  have hmachine : (m.obey word).machine = next := by rw [hpass.obeys]
  refine ⟨?_, hrest.standard, hrest.running, ?_⟩
  · rw [obeyAll?, if_pos herror, hmachine]
    exact hrest.obeyed
  · intro hstands hapart
    have hahead (i : Nat) : m.registers.pc + UInt64.ofNat (4 * (i + 1)) =
        m.registers.pc + 4 + UInt64.ofNat (4 * i) := by
      rw [Nat.mul_add, UInt64.ofNat_add, UInt64.add_comm (UInt64.ofNat (4 * i)), UInt64.add_assoc]
      rfl
    have hfetch : m.memory.fetch m.registers.pc = .ok word := by
      simpa using hstands.code 0 word rfl
    -- the words that are left stand in the memory that this one leaves
    have hleft : next.StandsOn words := by
      refine ⟨hpass.standard, hpass.running, ?_⟩
      intro i code hcode
      have hlt : i < words.length := (List.getElem?_eq_some_iff.1 hcode).1
      rw [hpass.memory, hpass.pc, ← hahead i]
      apply hkept _ _ _ (hstands.code (i + 1) code hcode)
      intro j hj
      rw [UInt64.add_assoc, ← UInt64.ofNat_add]
      exact hapart _ (by rw [List.length_cons]; omega)
    have hclock : m.clock = ⟨next, none⟩ := (clock_eq_obey hfetch).trans hpass.obeys
    rw [List.length_cons, clocks?, hclock, if_pos rfl]
    apply hrest.clocked hleft
    intro i hi
    have hplace : m.registers.pc + 4 + UInt64.ofNat i = m.registers.pc + UInt64.ofNat (4 + i) := by
      rw [UInt64.ofNat_add, UInt64.add_assoc]
      rfl
    rw [hpass.pc, hplace]
    exact hapart _ (by rw [List.length_cons]; omega)

end Runs

end Machine

/-! ### The words of instructions -/

namespace Assembler

/-- The words that instructions are assembled to, those of pseudo-instructions expanded. -/
def codesOf : List Instruction → Except Error (List Word)
  | [] => .ok []
  | x :: rest =>
    match realInstructions Table.standard x with
    | .error e => .error e
    | .ok parts =>
      match encodeAll parts with
      | .error e => .error e
      | .ok codes => (codesOf rest).map (codes ++ ·)

theorem codesOf_singleton {x : Instruction} {parts : List Instruction} {codes : List Word}
    (hparts : realInstructions Table.standard x = .ok parts) (hcodes : encodeAll parts = .ok codes) :
    codesOf [x] = .ok codes := by
  simp [codesOf, hparts, hcodes, Except.map]

/-- Instructions one by one. -/
theorem codesOf_map {α : Type} {f : α → Instruction} {words : α → List Word} {list : List α}
    (h : ∀ a ∈ list, ∃ parts, realInstructions Table.standard (f a) = .ok parts ∧
      encodeAll parts = .ok (words a)) : codesOf (list.map f) = .ok (list.flatMap words) := by
  induction list with
  | nil => rfl
  | cons a rest ih =>
      obtain ⟨parts, hparts, hwords⟩ := h a List.mem_cons_self
      have hrest := ih fun b hb => h b (List.mem_cons_of_mem a hb)
      simp only [List.map_cons, codesOf, hparts, hwords, hrest, Except.map, List.flatMap_cons]

theorem realInstructions_of_steps {x : Instruction} {steps : List Step}
    (hpseudo : x.mnemonic.isPseudo = true) (hsteps : steps? x = some steps) :
    realInstructions Table.standard x = instructionsOf Table.standard steps := by
  simp [realInstructions, hpseudo, hsteps]

end Assembler

end VectorRisc
