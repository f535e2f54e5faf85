/-
Module: VectorRisc.Proofs.Machine.Change
Layer: Proofs
Purpose: What the execution of one instruction can change besides registers and files. Memory stays, or
  takes one store that the permissions of a region allow, or has its break moved; the instruction table
  and the actions stay. Every invariant of a run follows from this.
Imports: Mathlib.Tactic, VectorRisc.Machine.Clock
Trusted boundary: none
Main exports: Memory.Change, Machine.Change, Machine.perform_change, Machine.clock_change
Open obligations: none
-/
import Mathlib.Tactic
import VectorRisc.Machine.Clock

namespace VectorRisc

/-- What one instruction can do to memory. -/
inductive Memory.Change (m : Memory) : Memory → Prop where
  | same : Change m m
  | stored (addr : UInt64) (bytes : List UInt8) (h : m.storeFault? addr bytes.length = none) :
      Change m (m.put addr bytes)
  | moved (delta : Int64) (h : m.moveFault? delta = none) : Change m (m.shift delta)

/-- What one instruction can do to the machine; its registers, its files and its log are free. -/
structure Machine.Change {σ : Type} (m after : Machine σ) : Prop where
  memory : m.memory.Change after.memory
  table : after.table = m.table
  actions : after.actions = m.actions

namespace Machine

variable {σ : Type}

namespace Change

/-- Registers, files and the log do not matter. -/
theorem same {m after : Machine σ} (hmemory : after.memory = m.memory) (htable : after.table = m.table)
    (hactions : after.actions = m.actions) : m.Change after :=
  ⟨hmemory ▸ .same, htable, hactions⟩

theorem refl (m : Machine σ) : m.Change m := .same rfl rfl rfl

/-- What changes from a machine that differs in registers, files and the log only. -/
theorem of_same {m next after : Machine σ} (h : next.Change after) (hmemory : next.memory = m.memory)
    (htable : next.table = m.table) (hactions : next.actions = m.actions) : m.Change after :=
  ⟨hmemory ▸ h.memory, h.table.trans htable, h.actions.trans hactions⟩

/-- What changes to a machine that differs in registers, files and the log only. -/
theorem to_same {m next after : Machine σ} (h : m.Change next) (hmemory : after.memory = next.memory)
    (htable : after.table = next.table) (hactions : after.actions = next.actions) : m.Change after :=
  ⟨hmemory ▸ h.memory, htable.trans h.table, hactions.trans h.actions⟩

end Change

/-! ### Steps that leave memory alone -/

theorem note_change (m : Machine σ) (event : Event) : m.Change (m.note event) := by
  rw [note]
  split <;> exact .same rfl rfl rfl

@[simp] theorem note_memory (m : Machine σ) (event : Event) : (m.note event).memory = m.memory := by
  rw [note]
  split <;> rfl

@[simp] theorem note_table (m : Machine σ) (event : Event) : (m.note event).table = m.table :=
  (note_change m event).table

@[simp] theorem note_actions (m : Machine σ) (event : Event) : (m.note event).actions = m.actions :=
  (note_change m event).actions

theorem noteMemory_same (m : Machine σ) (events : List Memory.Event) :
    (m.noteMemory events).memory = m.memory ∧ (m.noteMemory events).table = m.table ∧
      (m.noteMemory events).actions = m.actions := by
  rw [noteMemory]
  split <;> exact ⟨rfl, rfl, rfl⟩

theorem link_change (m : Machine σ) (yes : Bool) : m.Change (m.link yes) := by
  rw [link]
  split <;> exact .same rfl rfl rfl

theorem load_change (m : Machine σ) (form : Addressing) (width : Nat) (signed : Bool)
    (x : Instruction) : m.Change (m.load form width signed x).machine := by
  rw [load]
  split <;> exact .same rfl rfl rfl

theorem loadLanes_change (m : Machine σ) (form : Addressing) (x : Instruction) :
    m.Change (m.loadLanes form x).machine := by
  rw [loadLanes]
  split <;> exact .same rfl rfl rfl

theorem fromKernel_change (m : Machine σ) (x : Instruction) : m.Change (m.fromKernel x).machine := by
  rw [fromKernel]
  split <;> exact .same rfl rfl rfl

theorem toKernel_change (m : Machine σ) (x : Instruction) : m.Change (m.toKernel x).machine := by
  rw [toKernel]
  split <;> exact .same rfl rfl rfl

/-! ### Stores and services -/

theorem storeBytes_change (m : Machine σ) (addr : UInt64) (bytes : List UInt8) :
    m.Change (m.storeBytes addr bytes).machine := by
  rw [storeBytes]
  split
  · exact .refl m
  · rename_i h
    exact ⟨.stored addr bytes h, rfl, rfl⟩

theorem storeAnswer_change (m : Machine σ) (addr : UInt64) (bytes : List UInt8) (result : UInt64) :
    m.Change (m.storeAnswer addr bytes result).machine := by
  rw [storeAnswer]
  split
  · exact .refl m
  · rename_i h
    exact ⟨.stored addr bytes h, rfl, rfl⟩

theorem moveBreak_change (m : Machine σ) (delta : Int64) : m.Change (m.moveBreak delta).machine := by
  simp only [moveBreak, Memory.sbrk, Memory.moveBreak]
  cases hfault : m.memory.moveFault? delta with
  | some e => exact .same rfl rfl rfl
  | none =>
      obtain ⟨hmemory, htable, hactions⟩ := noteMemory_same
        ({ m with memory := m.memory.shift delta } : Machine σ) (m.memory.movedBy delta)
      refine ⟨?_, htable, hactions⟩
      simp only [answer, set]
      rw [hmemory]
      exact .moved delta hfault

theorem readString_change (m : Machine σ) (addr size : UInt64) :
    m.Change (m.readString addr size).machine := by
  rw [readString]
  split
  · exact .same rfl rfl rfl
  · exact (storeAnswer_change (m.takeInput fun input =>
      input.readLine (transferSize (size - 1))).2 addr _ _).of_same rfl rfl rfl

section Host

variable [FileSystem σ]

theorem print_change (m : Machine σ) (bytes : List UInt8) : m.Change (m.print bytes).machine := by
  simp only [print]
  split <;> exact .same rfl rfl rfl

theorem printString_change (m : Machine σ) (addr : UInt64) :
    m.Change (m.printString addr).machine := by
  rw [printString]
  split
  · exact .refl m
  · exact print_change m _

theorem openFile_change (m : Machine σ) (addr flags permissions : UInt64) :
    m.Change (m.openFile addr flags permissions).machine := by
  rw [openFile]
  split <;> exact .same rfl rfl rfl

theorem readFile_change (m : Machine σ) (fd addr count : UInt64) :
    m.Change (m.readFile fd addr count).machine := by
  simp only [readFile]
  split
  · exact .same rfl rfl rfl
  · exact .same rfl rfl rfl
  · exact (storeAnswer_change { m with
      files := (m.files.read fd (transferSize count)).2 } addr _ _).of_same rfl rfl rfl

theorem writeFile_change (m : Machine σ) (fd addr count : UInt64) :
    m.Change (m.writeFile fd addr count).machine := by
  rw [writeFile]
  split
  · exact .same rfl rfl rfl
  · split <;> exact .same rfl rfl rfl

/-- A service changes memory by a permitted store or by moving the break. -/
theorem serve_change (m : Machine σ) (service : Service) : m.Change (m.serve service).machine := by
  cases service with
  | printString => exact printString_change m _
  | readString => exact readString_change m _ _
  | sbrk => exact moveBreak_change m _
  | openFile => exact openFile_change m _ _ _
  | read => exact readFile_change m _ _ _
  | write => exact writeFile_change m _ _ _
  | readInt => exact .same rfl rfl rfl
  | readFloat => exact .same rfl rfl rfl
  | readDouble => exact .same rfl rfl rfl
  | readChar => exact .same rfl rfl rfl
  | exit => exact .same rfl rfl rfl
  | exitWith => exact .same rfl rfl rfl
  | close => exact .same rfl rfl rfl
  | _ => exact print_change m _

theorem performService_change (m : Machine σ) : m.Change m.performService.machine := by
  simp only [performService]
  split
  · exact note_change m _
  · exact (serve_change _ _).of_same (note_memory m _) (note_table m _) (note_actions m _)

/-! ### Instructions -/

/-- An action changes memory by a permitted store or by moving the break. -/
theorem perform_change (m : Machine σ) (pc : UInt64) (x : Instruction) (action : Action) :
    m.Change (m.perform pc x action).machine := by
  cases action with
  | branch test =>
      rw [perform]
      split <;> exact .same rfl rfl rfl
  | jump linked => exact (link_change m linked).to_same rfl rfl rfl
  | jumpRegister linked => exact (link_change m linked).to_same rfl rfl rfl
  | load form width signed => exact load_change m form width signed x
  | store form width => exact storeBytes_change m _ _
  | fromKernel => exact fromKernel_change m x
  | toKernel => exact toKernel_change m x
  | loadLanes form => exact loadLanes_change m form x
  | storeLanes form => exact storeBytes_change m _ _
  | service => exact performService_change m
  | _ => exact .same rfl rfl rfl

/-- One clock changes memory by a permitted store or by moving the break, whether it fails or not. -/
theorem clock_change (m : Machine σ) : m.Change m.clock.machine := by
  rw [clock]
  split
  · exact .refl m
  · simp only
    split
    · exact .refl m
    · rename_i word x action hfound
      have hperform := perform_change ((m.note (.clock m.registers.pc word x)).goTo
        (m.registers.pc + 4)) m.registers.pc x action
      have hready := hperform.of_same (m := m) (note_memory m _) (note_table m _) (note_actions m _)
      exact hready.to_same rfl rfl rfl

end Host

end Machine

end VectorRisc
