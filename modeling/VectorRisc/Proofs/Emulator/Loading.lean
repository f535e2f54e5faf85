/-
Module: VectorRisc.Proofs.Emulator.Loading
Layer: Proofs
Purpose: What a program that loads leaves behind: its sections as regions of memory that share no
  address, a stack and a heap after them, and a machine that is otherwise the one it was.
Imports: Mathlib.Tactic, VectorRisc.Emulator, VectorRisc.Proofs.Memory.Layout
Trusted boundary: none
Main exports: Emulator.sectionRegion, Emulator.mem_regions, Emulator.Holds, Emulator.load_eq_none,
  Emulator.layOut_holds
Open obligations: none
-/
import Mathlib.Tactic
import VectorRisc.Emulator
import VectorRisc.Proofs.Memory.Layout

namespace VectorRisc

namespace Emulator

/-! ### The regions of a program -/

/-- The region that a section of a program is loaded into. -/
def sectionRegion (program : ObjectFile) (s : Segment) : Region :=
  let content := program.sections.get s
  Region.make s.name content.addr (regionSize s content) s.access content.data

/-- The regions of a program are those of its sections that are not empty. -/
theorem mem_regions {program : ObjectFile} {r : Region} :
    r ∈ regions program ↔
      ∃ s, regionSize s (program.sections.get s) ≠ 0 ∧ r = sectionRegion program s := by
  simp only [regions, List.mem_filterMap]
  constructor
  · rintro ⟨s, -, h⟩
    split at h
    · cases h
    · rename_i hsize
      exact ⟨s, hsize, (Option.some.inj h).symm⟩
  · rintro ⟨s, hsize, rfl⟩
    refine ⟨s, ?_, by rw [if_neg hsize]; rfl⟩
    cases s <;> simp [Segment.all]

@[simp] theorem sectionRegion_first (program : ObjectFile) (s : Segment) :
    (sectionRegion program s).first = (program.sections.get s).addr := rfl

/-- Regions that were all added follow the ones before, and share no address. -/
theorem addRegions_eq_none {rs : List Region} {m after : Memory}
    (h : addRegions rs m = (after, none)) (hapart : Memory.Apart m.regions) :
    after.regions = m.regions ++ rs ∧ Memory.Apart after.regions := by
  induction rs generalizing m with
  | nil =>
      rw [addRegions, Prod.mk.injEq] at h
      obtain ⟨rfl, -⟩ := h
      exact ⟨by simp, hapart⟩
  | cons r rest ih =>
      rw [addRegions] at h
      cases hadd : m.add r with
      | error e => simp [hadd] at h
      | ok next =>
          rw [hadd] at h
          obtain ⟨rfl, hr⟩ := Memory.add_eq_ok hadd
          obtain ⟨hregions, hall⟩ := ih h (hapart.snoc hr)
          exact ⟨by simp [hregions], hall⟩

/-- The memory holds the program: the regions of its sections, a stack that cannot be executed, and a
    heap, with whatever stores and moves of the break there were since. -/
def Holds (program : ObjectFile) (m : Memory) : Prop :=
  ∃ stack : Region, stack.access = Access.rw ∧ Memory.Apart (regions program ++ [stack]) ∧
    Memory.Laid (regions program ++ [stack]) m

/-- A memory that was laid out holds its program. -/
theorem layOut_holds {stackSize gap : UInt64} {program : ObjectFile} {m : Memory}
    (h : layOut stackSize gap program = (m, none)) : Holds program m := by
  simp only [layOut] at h
  split at h
  · cases h
  · rename_i laid hadded
    obtain ⟨hregions, hapart⟩ := addRegions_eq_none hadded List.Pairwise.nil
    rw [addDynamic] at h
    cases hstack : laid.addStack stackSize with
    | error e => simp [hstack] at h
    | ok withStack =>
        cases hheap : withStack.addHeap gap with
        | error e => simp [hstack, hheap] at h
        | ok full =>
            simp only [hstack, hheap, Prod.mk.injEq, and_true] at h
            subst h
            obtain ⟨rfl, hfree⟩ := Memory.addStack_eq_ok hstack
            have hsections : laid.regions = regions program := by simpa using hregions
            rw [hsections] at hapart hfree
            rw [Memory.addHeap_eq_ok hheap, hsections]
            refine ⟨Memory.stackRegion stackSize, rfl, hapart.snoc hfree, ⟨_, _, rfl, rfl, rfl, ?_⟩⟩
            exact List.forall₂_same.2 fun r _ => Region.Kept.refl r

/-! ### Loading -/

variable {σ : Type} [FileSystem σ]

/-- A program that loads is fit to run, is laid out, and leaves the machine with that memory, at the entry
    of the program. -/
theorem load_eq_none {e : Emulator σ} {program : ObjectFile}
    (h : (e.load (some program)).error = none) :
    let loaded := (e.load (some program)).emulator
    unfit? program = none ∧ Holds program loaded.machine.memory ∧
      loaded.machine.table = e.machine.table ∧ loaded.machine.actions = e.machine.actions ∧
      loaded.machine.halted = false ∧ loaded.program = some program ∧
      loaded.machine.registers.pc = program.entry := by
  cases hunfit : unfit? program with
  | some cause => simp [load, hunfit] at h
  | none =>
      cases hlaid : layOut e.stackSize (Memory.heapGap e.seed e.seed) program with
      | mk memory fault =>
          cases fault with
          | some cause => simp [load, hunfit, reset, start, hlaid] at h
          | none =>
              have hholds := layOut_holds hlaid
              simp only [load, hunfit, reset, start, hlaid, Machine.reset, Machine.note,
                Machine.noteMemory]
              -- what is noted depends on whether the emulator is verbose
              split <;> exact ⟨trivial, hholds, rfl, rfl, rfl, trivial, rfl⟩

end Emulator

end VectorRisc
