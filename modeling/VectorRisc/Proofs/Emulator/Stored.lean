/-
Module: VectorRisc.Proofs.Emulator.Stored
Layer: Proofs
Purpose: Programs on their way through files. Assembled objects fit the file format, so that they can be
  written and read back between assembling and linking, and executables between linking and loading,
  without a change to the result.
Imports: Mathlib.Tactic, VectorRisc.Command.Host, VectorRisc.Proofs.Emulator.Loading,
  VectorRisc.Proofs.Object.Settled
Trusted boundary: none
Main exports: Assembler.Known, Assembler.assemble_encodable, Emulator.load_agrees,
  Emulator.stored_agrees
Open obligations: none
-/
import Mathlib.Tactic
import VectorRisc.Command.Host
import VectorRisc.Proofs.Emulator.Loading
import VectorRisc.Proofs.Object.Settled

namespace VectorRisc

namespace Assembler

/-! ### Assembled objects fit the format -/

/-- Every symbol so far has a kind and a scope that mean something. -/
def Known (s : State) : Prop :=
  ∀ sym ∈ s.symbols.toList, sym.kind.code ≤ SymbolKind.greatest ∧ sym.scope.code ≤ Scope.greatest

namespace Known

variable {s t : State}

theorem binds (h : Known s) : Known s.bindLabels := by
  intro sym hsym
  simp only [State.bindLabels, Array.toList_append, List.mem_append, List.mem_map] at hsym
  rcases hsym with hold | ⟨mark, -, rfl⟩
  · exact h sym hold
  · constructor
    · simp only [State.symbolOf]
      cases s.segment <;> decide
    · simp only [State.symbolOf]
      split <;> decide

theorem move (h : Known s) (hmove : Move s t) : Known t := by
  cases hmove with
  | aside hsame =>
      rw [Known, hsame.symbols]
      exact h
  | waits mark => exact h
  | binds => exact h.binds
  | writes bytes => exact h
  | places line c => exact h.binds

theorem moves (h : Known s) (hmoves : Moves s t) : Known t := by
  induction hmoves with
  | refl => exact h
  | tail _ hmove ih => exact ih.move hmove

/-- The scope that a symbol gets at the end means something too. -/
theorem scopedSymbols (h : Known s) : ∀ sym ∈ s.scopedSymbols,
    sym.kind.code ≤ SymbolKind.greatest ∧ sym.scope.code ≤ Scope.greatest := by
  intro sym hsym
  obtain ⟨old, hold, rfl⟩ := List.mem_map.1 hsym
  split
  · exact ⟨(h old hold).1, UInt16.le_refl _⟩
  · exact h old hold

end Known

theorem symbols_of_finish {s : State} (h : Known s) {file : ObjectFile} (hfinish : s.finish.2 = .ok file) :
    ∀ sym ∈ file.symbols, sym.kind.code ≤ SymbolKind.greatest ∧ sym.scope.code ≤ Scope.greatest := by
  rw [(finished_of_finish hfinish).symbols]
  rcases finish_state s with hend | hend <;> rw [hend]
  · exact h.scopedSymbols
  · exact h.binds.scopedSymbols

/-- An object that is assembled fits the format, if its labels are short enough and it is not too long. -/
theorem assemble_encodable {host : Host} {predefined : Equates} {source : Text} {file : ObjectFile}
    (h : (assemble { host := host, predefined := predefined } source).2 = .ok file)
    (hsymbols : ∀ sym ∈ file.symbols, sym.label.length < 2 ^ 32)
    (hrelocations : ∀ r ∈ file.relocations, r.label.length < 2 ^ 32)
    (hlength : file.encodedLength < 2 ^ 64) : file.Encodable := by
  obtain ⟨s, hlines, -, hfinish, -⟩ := assemble_eq_ok h
  have hstart : Known { ({ host := host, predefined := predefined } : Assembler).start with
      labels := labelsOf source.lines } := by
    simp [Known, start]
  have hknown := symbols_of_finish (hstart.moves (assembleLines_moves hlines)) hfinish
  have hwell := assemble_wellFormed h
  refine ⟨.inl hwell.kind, fun r hr => ?_, fun sym hsym => ?_, hlength⟩
  · obtain ⟨seg, patch, hplaced⟩ := hwell.placed r hr
    refine ⟨?_, ?_, hrelocations r hr⟩
    · rw [hplaced.kind]
      cases patch <;> cases seg <;> decide
    · rcases hwell.scope r hr with hscope | hscope <;> rw [hscope] <;> decide
  · exact ⟨(hknown sym hsym).1, (hknown sym hsym).2, hsymbols sym hsym⟩

end Assembler

namespace Emulator

/-! ### Loading what is read back -/

variable {σ τ : Type} [FileSystem σ] [FileSystem τ]

/-- What loading a program does to memory and registers depends on the size of the stack and the seed
    alone. -/
theorem load_agrees (e : Emulator σ) (f : Emulator τ) (hstack : f.stackSize = e.stackSize)
    (hseed : f.seed = e.seed) (program : ObjectFile) :
    (f.load (some program)).error = (e.load (some program)).error ∧
    ((e.load (some program)).error = none →
      (f.load (some program)).emulator.machine.memory = (e.load (some program)).emulator.machine.memory ∧
      (f.load (some program)).emulator.machine.registers =
        (e.load (some program)).emulator.machine.registers) := by
  cases hunfit : unfit? program with
  | some cause => simp [load, hunfit]
  | none =>
      cases hlaid : layOut e.stackSize (Memory.heapGap e.seed e.seed) program with
      | mk memory fault =>
          cases fault with
          | some cause => simp [load, hunfit, reset, start, hstack, hseed, hlaid]
          | none =>
              simp only [load, hunfit, reset, start, hstack, hseed, hlaid, Machine.reset, Machine.note,
                Machine.noteMemory]
              split <;> split <;> exact ⟨trivial, fun _ => ⟨rfl, rfl⟩⟩

/-- Going through files changes nothing. Objects that were assembled, written and read back are linked to
    the same result as the objects themselves, with the same steps; an executable is read back as it was
    written, and loading what is read back builds the same memory and the same registers. -/
theorem stored_agrees (inputs : List Linker.Input)
    (hassembled : ∀ input ∈ inputs,
      ∃ (host : Assembler.Host) (predefined : Assembler.Equates) (source : Text),
        (Assembler.assemble { host := host, predefined := predefined } source).2 = .ok input.file)
    (hlabels : ∀ input ∈ inputs, (∀ sym ∈ input.file.symbols, sym.label.length < 2 ^ 32) ∧
      ∀ r ∈ input.file.relocations, r.label.length < 2 ^ 32)
    (hlength : ∀ input ∈ inputs, input.file.encodedLength < 2 ^ 64) :
    (∃ again, inputs.mapM Linker.Input.stored = .ok again ∧
      Linker.link ⟨again⟩ = Linker.link ⟨inputs⟩) ∧
    ∀ exe, (Linker.link ⟨inputs⟩).1 = .ok exe → exe.encodedLength < 2 ^ 64 →
      exe.stored = .ok exe ∧
      ∀ copy, exe.stored = .ok copy → ∀ (e : Emulator σ) (f : Emulator τ),
        f.stackSize = e.stackSize → f.seed = e.seed →
        (f.load (some copy)).error = (e.load (some exe)).error ∧
        ((e.load (some exe)).error = none →
          (f.load (some copy)).emulator.machine.memory = (e.load (some exe)).emulator.machine.memory ∧
          (f.load (some copy)).emulator.machine.registers =
            (e.load (some exe)).emulator.machine.registers) := by
  constructor
  · have hfits : ∀ input ∈ inputs, input.file.kind = .relocatable ∧ input.file.Encodable := by
      intro input hinput
      obtain ⟨host, predefined, source, hfile⟩ := hassembled input hinput
      exact ⟨(Assembler.assemble_wellFormed hfile).kind, Assembler.assemble_encodable hfile
        (hlabels input hinput).1 (hlabels input hinput).2 (hlength input hinput)⟩
    exact ⟨_, Linker.mapM_stored hfits, Linker.link_settled inputs⟩
  · intro exe hlink hlen
    have hstored := Linker.stored_of_link hlink hlen
    refine ⟨hstored, fun copy hcopy e f hstack hseed => ?_⟩
    obtain rfl : exe = copy := Except.ok.inj (hstored.symm.trans hcopy)
    exact load_agrees e f hstack hseed exe

/-- A source that loads the address of a byte of data. -/
def byteSource : Text :=
  Text.ofString ".text\n.entry main\nmain: la %v0, b\n.data\nb: .byte 7\n"

/-- An object and its executable fit into files. -/
def soleFits (file : ObjectFile) : Bool :=
  file.symbols.all (fun sym => sym.label.length < 2 ^ 32) &&
    file.relocations.all (fun r => r.label.length < 2 ^ 32) && file.encodedLength < 2 ^ 64 &&
    match (Linker.link ⟨[⟨[], file⟩]⟩).1 with
    | .ok exe => exe.encodedLength < 2 ^ 64
    | .error _ => false

theorem stored_agrees_byteSource : ∃ file exe : ObjectFile,
    (Assembler.assemble (Command.assembler []) byteSource).2 = .ok file ∧
    (Linker.link ⟨[⟨[], file⟩]⟩).1 = .ok exe ∧
    (∃ again, [(⟨[], file⟩ : Linker.Input)].mapM Linker.Input.stored = .ok again ∧
      (Linker.link ⟨again⟩).1 = .ok exe) ∧ exe.stored = .ok exe := by
  have hfits : (Assembler.assemble (Command.assembler []) byteSource).2.toOption.map soleFits = some true := by
    decide +kernel
  cases hfile : (Assembler.assemble (Command.assembler []) byteSource).2 with
  | error e =>
      rw [hfile] at hfits
      cases hfits
  | ok file =>
      rw [hfile] at hfits
      replace hfits := Option.some.inj hfits
      simp only [soleFits, Bool.and_eq_true, List.all_eq_true, decide_eq_true_eq] at hfits
      obtain ⟨⟨⟨hsymbols, hrelocations⟩, hlength⟩, hexe⟩ := hfits
      split at hexe
      · rename_i exe hlink
        have hsole : ∀ input ∈ [(⟨[], file⟩ : Linker.Input)], input.file = file := by
          intro input hinput
          rw [List.mem_singleton.1 hinput]
        obtain ⟨⟨again, hstored, hsame⟩, hexes⟩ := @stored_agrees Disk Disk _ _ [⟨[], file⟩]
          (fun input hinput => ⟨Command.host, [], byteSource, (hsole input hinput).symm ▸ hfile⟩)
          (fun input hinput => (hsole input hinput).symm ▸ ⟨hsymbols, hrelocations⟩)
          (fun input hinput => (hsole input hinput).symm ▸ hlength)
        refine ⟨file, exe, rfl, hlink, ⟨again, hstored, ?_⟩, (hexes exe hlink (of_decide_eq_true hexe)).1⟩
        rw [hsame]
        exact hlink
      · cases hexe

end Emulator

end VectorRisc
