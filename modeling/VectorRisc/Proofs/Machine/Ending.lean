/-
Module: VectorRisc.Proofs.Machine.Ending
Layer: Proofs
Purpose: How the execution of one instruction ends. Either it is refused, and then only files and the log
  may differ; or it is done, and then scalar register zero and the number of clocks are as they were and
  the program counter stays or goes to the target of the instruction. What a run keeps follows from this.
Imports: Mathlib.Tactic, VectorRisc.Machine.Clock, VectorRisc.Proofs.Instruction.Word,
  VectorRisc.Proofs.Machine.Clock, VectorRisc.Proofs.Outcome
Trusted boundary: none
Main exports: Memory.Refuses, Machine.Ended, Machine.Blame, Machine.Left, Machine.serve_ended,
  Machine.perform_ended, Machine.executes, Machine.clock_cases
Open obligations: none
-/
import Mathlib.Tactic
import VectorRisc.Machine.Clock
import VectorRisc.Proofs.Instruction.Word
import VectorRisc.Proofs.Machine.Clock
import VectorRisc.Proofs.Outcome

namespace VectorRisc

/-! ### Registers and actions of instructions -/

/-- A write to a scalar register that there is leaves register zero alone. -/
theorem Registers.get_zero_set (regs : Registers) {r : UInt8} (hr : r.toNat < 32) (value : UInt64) :
    (regs.set r value).get Register.zero = regs.get Register.zero := by
  rw [set]
  split
  · rfl
  · rename_i hne
    have hplace : r.toNat % 32 ≠ 0 := by
      rw [Nat.mod_eq_of_lt hr]
      intro hzero
      exact hne (UInt8.toNat_inj.1 hzero)
    exact Vector.getElem_set_ne (Nat.mod_lt _ (by norm_num)) (by norm_num) hplace

/-- The registers of an instruction have five bits. -/
structure Instruction.Narrow (x : Instruction) : Prop where
  rd : x.rd.toNat < 32
  rt : x.rt.toNat < 32

/-- Whatever the table, a word is decoded to registers of five bits. -/
theorem Instruction.narrow_of_decode {tb : Table} {w : Word} {x : Instruction}
    (h : decode tb w = .ok x) : x.Narrow := by
  have hd : w.fieldD.toNat < 32 := by
    rw [Word.toNat_fieldD]
    omega
  have ht : w.fieldT.toNat < 32 := by
    rw [Word.toNat_fieldT]
    omega
  rw [decode] at h
  split at h
  · cases h
  · simp only at h
    split at h
    · cases h
    · split at h
      case h_4 =>
        split at h <;> (cases h; exact ⟨Nat.zero_lt_succ _, Nat.zero_lt_succ _⟩)
      all_goals cases h
      · exact ⟨hd, ht⟩
      · exact ⟨hd, Nat.zero_lt_succ _⟩
      · exact ⟨Nat.zero_lt_succ _, hd⟩
      all_goals exact ⟨Nat.zero_lt_succ _, Nat.zero_lt_succ _⟩

/-- An action that is found stands in the table under its name. -/
theorem Action.mem_all {name : Text} {action : Action} (h : Action.all.lookup name = some action) :
    (name, action) ∈ Action.all := by
  obtain ⟨before, after, hall, -⟩ := List.lookup_eq_some_iff.1 h
  rw [hall]
  exact List.mem_append_right _ List.mem_cons_self

/-! ### Refused accesses -/

/-- The memory refuses an access with this error. -/
inductive Memory.Refuses (m : Memory) (cause : Memory.Error) : Prop where
  | access (addr : UInt64) (n : Nat) (wanted : Access) (h : m.fault? addr n wanted = some cause)
  | store (addr : UInt64) (n : Nat) (h : m.storeFault? addr n = some cause)

namespace Memory

theorem refuses_of_read {m : Memory} {addr : UInt64} {n : Nat} {wanted : Access} {cause : Error}
    (h : m.read addr n wanted = .error cause) : m.Refuses cause := by
  rw [read] at h
  split at h
  · rename_i fault hfault
    cases h
    exact .access addr n wanted hfault
  · cases h

theorem refuses_of_loadNumber {m : Memory} {addr : UInt64} {width : Nat} {cause : Error}
    (h : m.loadNumber addr width = .error cause) : m.Refuses cause :=
  refuses_of_read (map_eq_error h)

/-- A text ends at an access that the memory refuses, if it ends with an error. -/
theorem refuses_of_loadStringFrom {m : Memory} {limit : Nat} {sofar : Text} {addr : UInt64}
    {text : Text} {cause : Error} (h : m.loadStringFrom limit sofar addr = (text, some cause)) :
    m.Refuses cause := by
  induction limit generalizing sofar addr with
  | zero => cases h
  | succ limit ih =>
      rw [loadStringFrom] at h
      split at h
      · rename_i e hload
        obtain ⟨-, rfl⟩ : sofar.reverse = text ∧ e = cause := by simpa using h
        exact refuses_of_read hload
      · split at h
        · cases h
        · exact ih h

end Memory

namespace Machine

variable {σ : Type}

/-! ### Endings -/

/-- How work on a machine ends: refused for a cause that is to be blamed, with files and the log changed
    at most; or done, with the clocks as they were and the registers left in a certain way. -/
inductive Ended (m : Machine σ) (blamed : Error → Prop) (left : Registers → Prop) (step : Step σ) :
    Prop where
  | refused (cause : Error) (herror : step.error = some cause) (hblamed : blamed cause)
      (hsame : ∃ files log, step.machine = { m with files := files, log := log })
  | done (herror : step.error = none) (hclocks : step.machine.clocks = m.clocks)
      (hregisters : left step.machine.registers)

/-- The errors that can stop an action over a memory. -/
inductive Blame (memory : Memory) (x : Instruction) : Action → Error → Prop where
  | memory {action : Action} {cause : Memory.Error} (h : memory.Refuses cause) :
      Blame memory x action (.memory cause)
  | fromKernel (h : 5 < x.rt) : Blame memory x .fromKernel (.kernelRegister x.rt)
  | toKernel (h : 5 < x.rd) : Blame memory x .toKernel (.kernelRegister x.rd)
  | unknownService (number : UInt64) : Blame memory x .service (.unknownService number)

/-- Where an action may go on, if not at the next instruction. -/
def target? (m : Machine σ) (pc : UInt64) (x : Instruction) : Action → Option UInt64
  | .branch _ => some (m.registers.pc + (x.imm * 4).toUInt64)
  | .jump _ => some (jumpTarget pc x.imm)
  | .jumpRegister _ => some (m.get x.rs)
  | _ => none

/-- The registers that an action leaves. -/
structure Left (m : Machine σ) (pc : UInt64) (x : Instruction) (action : Action) (after : Registers) :
    Prop where
  zero : after.get Register.zero = m.registers.get Register.zero
  pc : after.pc = m.registers.pc ∨ m.target? pc x action = some after.pc

/-- The registers that a service leaves: its result is the only change. -/
def Answered (m : Machine σ) (after : Registers) : Prop :=
  ∃ result, after = m.registers.set Register.v0 result

namespace Ended

variable {m next : Machine σ} {blamed : Error → Prop} {left : Registers → Prop} {step : Step σ}

/-- Work on a machine that differs in files and the log only. -/
theorem of_same (h : next.Ended blamed left step)
    (hnext : ∃ files log, next = { m with files := files, log := log }) : m.Ended blamed left step := by
  obtain ⟨files, log, rfl⟩ := hnext
  cases h with
  | refused cause herror hblamed hsame =>
      obtain ⟨filesAfter, logAfter, hafter⟩ := hsame
      exact .refused cause herror hblamed ⟨filesAfter, logAfter, hafter⟩
  | done herror hclocks hregisters => exact .done herror hclocks hregisters

/-- A fault ends work without a change. -/
theorem refuse {cause : Error} (h : blamed cause) : m.Ended blamed left ⟨m, some cause⟩ :=
  .refused cause rfl h ⟨m.files, m.log, rfl⟩

end Ended

theorem note_eq (m : Machine σ) (event : Event) :
    ∃ files log, m.note event = { m with files := files, log := log } := by
  rw [note]
  split
  · exact ⟨m.files, m.log.push event, rfl⟩
  · exact ⟨m.files, m.log, rfl⟩

/-! ### Services -/

section Services

variable {x : Instruction}

theorem storeAnswer_ended (m : Machine σ) (addr : UInt64) (bytes : List UInt8) (result : UInt64) :
    m.Ended (Blame m.memory x .service) m.Answered (m.storeAnswer addr bytes result) := by
  rw [storeAnswer]
  split
  · rename_i cause hfault
    exact .refuse (.memory (.store addr _ hfault))
  · exact .done rfl rfl ⟨_, rfl⟩

theorem readString_ended (m : Machine σ) (addr size : UInt64) :
    m.Ended (Blame m.memory x .service) m.Answered (m.readString addr size) := by
  rw [readString]
  split
  · exact .done rfl rfl ⟨_, rfl⟩
  · exact (storeAnswer_ended (m.takeInput fun input =>
      input.readLine (transferSize (size - 1))).2 addr _ _).of_same ⟨_, m.log, rfl⟩

theorem moveBreak_ended (m : Machine σ) (delta : Int64) :
    m.Ended (Blame m.memory x .service) m.Answered (m.moveBreak delta) := by
  simp only [moveBreak, Memory.sbrk, noteMemory]
  cases m.memory.moveBreak delta with
  | error e => exact .done rfl rfl ⟨_, rfl⟩
  | ok memory =>
      simp only
      split <;> exact .done rfl rfl ⟨_, rfl⟩

variable [FileSystem σ]

theorem print_ended (m : Machine σ) (bytes : List UInt8) :
    m.Ended (Blame m.memory x .service) m.Answered (m.print bytes) := by
  simp only [print]
  split <;> exact .done rfl rfl ⟨_, rfl⟩

theorem printString_ended (m : Machine σ) (addr : UInt64) :
    m.Ended (Blame m.memory x .service) m.Answered (m.printString addr) := by
  rw [printString]
  split
  · rename_i text cause hload
    exact .refuse (.memory (Memory.refuses_of_loadStringFrom hload))
  · exact print_ended m _

theorem openFile_ended (m : Machine σ) (addr flags permissions : UInt64) :
    m.Ended (Blame m.memory x .service) m.Answered (m.openFile addr flags permissions) := by
  rw [openFile]
  split
  · rename_i path cause hload
    exact .refuse (.memory (Memory.refuses_of_loadStringFrom hload))
  · exact .done rfl rfl ⟨_, rfl⟩

theorem readFile_ended (m : Machine σ) (fd addr count : UInt64) :
    m.Ended (Blame m.memory x .service) m.Answered (m.readFile fd addr count) := by
  simp only [readFile]
  split
  · exact .done rfl rfl ⟨_, rfl⟩
  · exact .done rfl rfl ⟨_, rfl⟩
  · -- the host has read before the store is checked
    exact (storeAnswer_ended { m with
      files := (m.files.read fd (transferSize count)).2 } addr _ _).of_same ⟨_, m.log, rfl⟩

theorem writeFile_ended (m : Machine σ) (fd addr count : UInt64) :
    m.Ended (Blame m.memory x .service) m.Answered (m.writeFile fd addr count) := by
  rw [writeFile]
  split
  · exact .done rfl rfl ⟨_, rfl⟩
  · split
    · rename_i cause hload
      exact .refuse (.memory (Memory.refuses_of_read hload))
    · exact .done rfl rfl ⟨_, rfl⟩

/-- A service is refused for its memory, or answers. -/
theorem serve_ended (m : Machine σ) (service : Service) :
    m.Ended (Blame m.memory x .service) m.Answered (m.serve service) := by
  cases service with
  | printString => exact printString_ended m _
  | readString => exact readString_ended m _ _
  | sbrk => exact moveBreak_ended m _
  | openFile => exact openFile_ended m _ _ _
  | read => exact readFile_ended m _ _ _
  | write => exact writeFile_ended m _ _ _
  | readInt => exact .done rfl rfl ⟨_, rfl⟩
  | readFloat => exact .done rfl rfl ⟨_, rfl⟩
  | readDouble => exact .done rfl rfl ⟨_, rfl⟩
  | readChar => exact .done rfl rfl ⟨_, rfl⟩
  | exit => exact .done rfl rfl ⟨_, rfl⟩
  | exitWith => exact .done rfl rfl ⟨_, rfl⟩
  | close => exact .done rfl rfl ⟨_, rfl⟩
  | _ => exact print_ended m _

theorem performService_ended (m : Machine σ) :
    m.Ended (Blame m.memory x .service) m.Answered m.performService := by
  simp only [performService]
  have hnoted := note_eq m (.service (m.get Register.v0) (m.argument 0) (m.argument 1) (m.argument 2))
  split
  · exact .refused _ rfl (.unknownService _) hnoted
  · obtain ⟨files, log, hsame⟩ := hnoted
    rw [hsame]
    exact (serve_ended _ _).of_same ⟨files, log, rfl⟩

end Services

/-! ### Actions -/

section Actions

variable {m : Machine σ} {pc : UInt64} {x : Instruction} {action : Action}

theorem left_set {r : UInt8} (hr : r.toNat < 32) (value : UInt64) :
    m.Left pc x action (m.registers.set r value) :=
  ⟨Registers.get_zero_set _ hr value, .inl (Registers.set_pc _ r value)⟩

theorem link_get_zero (m : Machine σ) (yes : Bool) :
    (m.link yes).registers.get Register.zero = m.registers.get Register.zero := by
  rw [link]
  split
  · exact Registers.get_zero_set _ (by decide) _
  · rfl

theorem link_clocks (m : Machine σ) (yes : Bool) : (m.link yes).clocks = m.clocks := by
  rw [link]
  split <;> rfl

/-- There are six kernel registers. -/
theorem kernel?_eq_none_iff {regs : Registers} {r : UInt8} : regs.kernel? r = none ↔ 5 < r := by
  rw [UInt8.lt_iff_toNat_lt, Registers.kernel?, Vector.getElem?_eq_none_iff]
  exact Nat.succ_le_iff

theorem load_ended (hx : x.Narrow) (form : Addressing) (width : Nat) (signed : Bool) :
    m.Ended (Blame m.memory x action) (m.Left pc x action) (m.load form width signed x) := by
  have hmoved : (movedRegister form x).toNat < 32 := by
    cases form with
    | offset => exact hx.rt
    | scaled => exact hx.rd
  rw [load]
  split
  · rename_i cause hload
    exact .refuse (.memory (Memory.refuses_of_loadNumber hload))
  · exact .done rfl rfl (left_set hmoved _)

theorem loadLanes_ended (form : Addressing) :
    m.Ended (Blame m.memory x action) (m.Left pc x action) (m.loadLanes form x) := by
  rw [loadLanes]
  split
  · rename_i cause hload
    exact .refuse (.memory (Memory.refuses_of_read hload))
  · exact .done rfl rfl ⟨rfl, .inl rfl⟩

theorem storeBytes_ended (addr : UInt64) (bytes : List UInt8) :
    m.Ended (Blame m.memory x action) (m.Left pc x action) (m.storeBytes addr bytes) := by
  rw [storeBytes]
  split
  · rename_i cause hfault
    exact .refuse (.memory (.store addr _ hfault))
  · exact .done rfl rfl ⟨rfl, .inl rfl⟩

theorem fromKernel_ended (hx : x.Narrow) :
    m.Ended (Blame m.memory x .fromKernel) (m.Left pc x .fromKernel) (m.fromKernel x) := by
  rw [fromKernel]
  split
  · rename_i hnone
    exact .refuse (.fromKernel (kernel?_eq_none_iff.1 hnone))
  · exact .done rfl rfl (left_set hx.rd _)

theorem toKernel_ended :
    m.Ended (Blame m.memory x .toKernel) (m.Left pc x .toKernel) (m.toKernel x) := by
  rw [toKernel]
  split
  · rename_i hnone
    exact .refuse (.toKernel (kernel?_eq_none_iff.1 hnone))
  · exact .done rfl rfl ⟨rfl, .inl rfl⟩

variable [FileSystem σ]

/-- An action is refused for one of the errors that it can meet, or leaves register zero alone and goes
    on at the next instruction or at its target. -/
theorem perform_ended (m : Machine σ) (pc : UInt64) (hx : x.Narrow) (action : Action) :
    m.Ended (Blame m.memory x action) (m.Left pc x action) (m.perform pc x action) := by
  cases action with
  | compute f => exact .done rfl rfl (left_set hx.rd _)
  | computeImmediate f => exact .done rfl rfl (left_set hx.rt _)
  | fromHi => exact .done rfl rfl (left_set hx.rd _)
  | fromLo => exact .done rfl rfl (left_set hx.rd _)
  | slice => exact .done rfl rfl (left_set hx.rd _)
  | reduce f => exact .done rfl rfl (left_set hx.rd _)
  | pick f => exact .done rfl rfl (left_set hx.rd _)
  | branch test =>
      rw [perform]
      split
      · exact .done rfl rfl ⟨rfl, .inr rfl⟩
      · exact .done rfl rfl ⟨rfl, .inl rfl⟩
  | jump linked => exact .done rfl (link_clocks m linked) ⟨link_get_zero m linked, .inr rfl⟩
  | jumpRegister linked => exact .done rfl (link_clocks m linked) ⟨link_get_zero m linked, .inr rfl⟩
  | load form width signed => exact load_ended hx form width signed
  | store form width => exact storeBytes_ended _ _
  | fromKernel => exact fromKernel_ended hx
  | toKernel => exact toKernel_ended
  | loadLanes form => exact loadLanes_ended form
  | storeLanes form => exact storeBytes_ended _ _
  | service =>
      cases performService_ended (x := x) m with
      | refused cause herror hblamed hsame => exact .refused cause herror hblamed hsame
      | done herror hclocks hregisters =>
          obtain ⟨result, hresult⟩ := hregisters
          exact .done herror hclocks (hresult ▸ left_set (by decide) result)
  | _ => exact .done rfl rfl ⟨rfl, .inl rfl⟩

end Actions

/-! ### Clocks -/

section Clocks

/-- The instruction at an address was fetched and decoded there, and its action found. -/
theorem instructionAt_eq_ok {m : Machine σ} {pc : UInt64} {word : Word} {x : Instruction}
    {action : Action} (h : m.instructionAt pc = .ok (word, x, action)) :
    m.memory.fetch pc = .ok word ∧ Instruction.decode m.table word = .ok x ∧
      m.actions.lookup x.mnemonic.name = some action := by
  rw [instructionAt] at h
  split at h
  · cases h
  · rename_i fetched hfetch
    split at h
    · cases h
    · rename_i y hdecode
      split at h
      · cases h
      · rename_i found haction
        cases h
        exact ⟨hfetch, hdecode, haction⟩

/-- The next clock reaches execution: the machine runs, and there is an instruction with an action at the
    program counter. -/
def executes (m : Machine σ) : Bool := !m.halted && (m.instructionAt m.registers.pc).toOption.isSome

/-- The machine that an action is performed on: the instruction is noted and the program counter has
    moved on. -/
def ready (m : Machine σ) (word : Word) (x : Instruction) : Machine σ :=
  (m.note (.clock m.registers.pc word x)).goTo (m.registers.pc + 4)

/-- The log and the program counter are all that differs when an action is performed. -/
theorem ready_eq (m : Machine σ) (word : Word) (x : Instruction) : ∃ files log, m.ready word x =
    { m with registers := { m.registers with pc := m.registers.pc + 4 }, files := files, log := log } := by
  obtain ⟨files, log, hnoted⟩ := note_eq m (.clock m.registers.pc word x)
  refine ⟨files, log, ?_⟩
  rw [ready, hnoted]
  rfl

variable [FileSystem σ]

/-- A clock either is refused before anything has changed, or performs an action and is counted. -/
theorem clock_cases (m : Machine σ) :
    (m.executes = false ∧ m.clock.machine = m ∧ ∃ cause, m.clock.error = some cause ∧
      (m.halted = true ∧ cause = .halted ∨
        m.halted = false ∧ m.instructionAt m.registers.pc = .error cause)) ∨
    (m.executes = true ∧ m.halted = false ∧ ∃ word x action,
      m.instructionAt m.registers.pc = .ok (word, x, action) ∧
      m.clock.error = ((m.ready word x).perform m.registers.pc x action).error ∧
      m.clock.machine = ((m.ready word x).perform m.registers.pc x action).machine.tally) := by
  cases hhalted : m.halted with
  | true =>
      refine .inl ⟨by simp [executes, hhalted], ?_⟩
      simp [clock, hhalted, refuse]
  | false =>
      cases hfound : m.instructionAt m.registers.pc with
      | error cause =>
          refine .inl ⟨by simp [executes, hhalted, hfound, Except.toOption], ?_⟩
          simp [clock, hhalted, hfound, refuse]
      | ok found =>
          obtain ⟨word, x, action⟩ := found
          refine .inr ⟨by simp [executes, hhalted, hfound, Except.toOption], rfl, word, x, action, rfl, ?_⟩
          simp only [clock, hhalted, hfound, execute]
          exact ⟨rfl, rfl⟩

end Clocks

end Machine

end VectorRisc
