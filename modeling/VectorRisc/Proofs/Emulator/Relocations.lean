/-
Module: VectorRisc.Proofs.Emulator.Relocations
Layer: Proofs
Purpose: Relocations mean what they say. When sources are assembled, linked and loaded, executing an
  instruction that a relocation patches does with the address of its label what the instruction is for.
Imports: Mathlib.Tactic, VectorRisc.Command.Host, VectorRisc.Proofs.Emulator.Code,
  VectorRisc.Proofs.Machine.Clock, VectorRisc.Proofs.Object.Linked
Trusted boundary: none
Main exports: Patch.Effect, Patch.effect_of_code, Emulator.standsOn_wordsAt,
  Emulator.relocations_effect
Open obligations: none
-/
import Mathlib.Tactic
import VectorRisc.Command.Host
import VectorRisc.Proofs.Emulator.Code
import VectorRisc.Proofs.Machine.Clock
import VectorRisc.Proofs.Object.Linked

namespace VectorRisc

/-! ### Instructions with a label -/

section Words

variable {σ : Type}

/-- A machine that has come to words of a code section at its fixed address. -/
theorem Emulator.standsOn_wordsAt {program : ObjectFile} {m : Machine σ} (hstandard : m.Standard)
    (hrunning : m.halted = false) (hholds : Holds program m.memory) {s : Segment}
    (hcode : s.isCode = true) (hbase : (program.sections.get s).addr = s.base)
    (hfits : s.base.toNat + (program.sections.get s).data.size < 2 ^ 64)
    (hsize : (program.sections.get s).memSize = Bytes.size64 (program.sections.get s).data)
    {offset n : Nat} (hpc : m.registers.pc = s.base + UInt64.ofNat offset)
    (hin : offset + 4 * n ≤ (program.sections.get s).data.size) :
    m.StandsOn (Bytes.wordsAt (program.sections.get s).data offset n) := by
  refine ⟨hstandard, hrunning, ?_⟩
  intro i w hw
  rw [← hbase] at hfits hpc
  rw [hpc]
  exact hholds.fetch_wordsAt hcode hfits hsize hin hw

end Words

variable {σ : Type} [FileSystem σ]

namespace Patch

/-- What the execution of an instruction with a label does, from a machine that has come to it. The words
    are those of the instruction in its object. A branch whose test holds and a jump go to the address of
    the label, and `jal` keeps the address after it; a slice of the address is put in its place in the
    register, the lowest one as a signed number over all of it; four slices make up the address. -/
def Effect (patch : Patch) (words : List Word) (addr : UInt64) (m : Machine σ) : Prop :=
  let decoded := words.map (Instruction.decode Table.standard)
  match patch with
  | .branch => ∃ (x : Instruction) (test : UInt64 → UInt64 → Bool), decoded = [.ok x] ∧
      x.mnemonic ∈ Mnemonic.branches ∧ Action.all.lookup x.mnemonic.name = some (.branch test) ∧
      (test (m.get x.rs) (m.get x.rt) = true →
        ∃ next, m.clocks? 1 = some next ∧ next.registers.pc = addr)
  | .jump => ∃ (x : Instruction) (next : Machine σ), decoded = [.ok x] ∧
      x.mnemonic ∈ Mnemonic.addressJumps ∧ m.clocks? 1 = some next ∧ next.registers.pc = addr ∧
      (x.mnemonic.name = Text.ofString "jal" → next.get Register.ra = m.registers.pc + 4)
  | .slice => ∃ (x : Instruction) (k : Nat) (value : UInt64) (next : Machine σ), decoded = [.ok x] ∧
      k < 4 ∧ x.mnemonic.name = Text.ofString (Assembler.sliceName k) ∧ m.clocks? 1 = some next ∧
      (∀ r, next.get r = (m.set x.rd value).get r) ∧
      if k = 0 then value = (sliceOf addr 0).toInt16.toInt64.toUInt64
      else ∀ n < 4, sliceOf value n = if n = k then sliceOf addr k else sliceOf (m.get x.rd) n
  | .address => ∃ rd : UInt8,
      decoded = Mnemonic.immediateSlices.map (fun m => .ok { mnemonic := m, rd := rd }) ∧
      (rd ≠ Register.zero → ∃ next, m.clocks? 4 = some next ∧ next.get rd = addr)

variable {m : Machine σ} {words : List Word} {addr : UInt64}

/-- A patched branch. -/
theorem effect_branch (hhosts : Patch.branch.Hosts words)
    (hreaches : Patch.branch.Reaches m.registers.pc addr)
    (h : m.StandsOn (Patch.branch.apply m.registers.pc addr words)) : Patch.branch.Effect words addr m := by
  obtain ⟨x, hwords, hm, -⟩ := hhosts
  obtain ⟨test, haction⟩ := Mnemonic.branch_action _ hm
  refine ⟨x, test, hwords, hm, haction, ?_⟩
  intro htest
  obtain ⟨w, rfl, hdecode⟩ := List.map_eq_singleton_iff.1 hwords
  obtain ⟨herror, hpc⟩ := (h.faces (Instruction.decode_setImmI hdecode hm _) haction).clock_branch htest
  refine ⟨_, Machine.clocks?_one herror, ?_⟩
  rw [hpc]
  exact hreaches.branch_eq

/-- A patched jump. -/
theorem effect_jump (hhosts : Patch.jump.Hosts words)
    (hreaches : Patch.jump.Reaches m.registers.pc addr)
    (h : m.StandsOn (Patch.jump.apply m.registers.pc addr words)) : Patch.jump.Effect words addr m := by
  obtain ⟨x, hwords, hm, -⟩ := hhosts
  obtain ⟨w, rfl, hdecode⟩ := List.map_eq_singleton_iff.1 hwords
  have haction := Mnemonic.addressJump_action _ hm
  obtain ⟨herror, hpc, hlink⟩ := (h.faces (Instruction.decode_setAddrJ hdecode hm _) haction).clock_jump
  refine ⟨x, _, hwords, hm, Machine.clocks?_one herror, ?_, ?_⟩
  · rw [hpc]
    exact hreaches.jumpTarget_eq
  · intro hname
    exact hlink (decide_eq_true hname)

/-- A patched slice. -/
theorem effect_slice (hhosts : Patch.slice.Hosts words)
    (h : m.StandsOn (Patch.slice.apply m.registers.pc addr words)) : Patch.slice.Effect words addr m := by
  obtain ⟨x, hwords, hm, -⟩ := hhosts
  obtain ⟨w, rfl, hdecode⟩ := List.map_eq_singleton_iff.1 hwords
  obtain ⟨hk, hname⟩ := Mnemonic.immediateSlice_name _ hm
  obtain ⟨-, hfunc⟩ := Instruction.funcEI_of_decode hdecode hm
  have hslice : w.funcEI.toNat % 4 = x.mnemonic.func.toNat := by
    rw [← hfunc, UInt8.toNat_toUInt16] at hk ⊢
    exact Nat.mod_eq_of_lt hk
  have hcode : x.mnemonic.func.toUInt64 = UInt64.ofNat x.mnemonic.func.toNat := by
    apply UInt64.toNat_inj.1
    rw [UInt16.toNat_toUInt64, UInt64.toNat_ofNat']
    omega
  have haction := Mnemonic.immediateSlice_action _ hm
  obtain ⟨herror, -, -, -, hget⟩ :=
    (h.faces (Instruction.decode_setImmEI hdecode hm _) haction).clock_slice
  refine ⟨x, x.mnemonic.func.toNat, _, _, hwords, hk, hname, Machine.clocks?_one herror, hget, ?_⟩
  rw [hslice]
  simp only [hcode]
  split
  · rename_i hzero
    rw [hzero]
    exact Machine.withSlice_zero _ _
  · rename_i hzero
    intro n hn
    exact Machine.sliceOf_withSlice _ _ (by omega) hk hn

/-- The slices of an address in order. -/
theorem loadsSlice {i : Nat} (hi : i < 4) (rd : UInt8) (value : UInt64) :
    ∃ mnemonic, Mnemonic.immediateSlices[i]? = some mnemonic ∧ mnemonic ∈ Mnemonic.immediateSlices ∧
      Machine.LoadsSlice { mnemonic := mnemonic, rd := rd, imm := (sliceOf value i).toUInt64.toInt64 } rd i
        value := by
  have hall : ∀ i < 4, ∃ mnemonic ∈ Mnemonic.immediateSlices,
      Mnemonic.immediateSlices[i]? = some mnemonic ∧ mnemonic.func = UInt16.ofNat i := by
    decide +kernel
  obtain ⟨mnemonic, hm, hfound, hfunc⟩ := hall i hi
  exact ⟨mnemonic, hfound, hm, hm, hfunc, rfl, rfl⟩

/-- The four patched words of an address. -/
theorem effect_address (hhosts : Patch.address.Hosts words)
    (h : m.StandsOn (Patch.address.apply m.registers.pc addr words)) :
    Patch.address.Effect words addr m := by
  have hlength := Assembler.length_of_hosts hhosts
  obtain ⟨rd, hwords⟩ := hhosts
  refine ⟨rd, hwords, ?_⟩
  intro hrd
  have hloads : ∀ i < 4, ∃ word x,
      m.memory.fetch (m.registers.pc + UInt64.ofNat (4 * i)) = .ok word ∧
      Instruction.decode Table.standard word = .ok x ∧ Machine.LoadsSlice x rd (0 + i) addr := by
    intro i hi
    obtain ⟨mnemonic, hfound, hm, hx⟩ := loadsSlice hi rd addr
    obtain ⟨w, hw⟩ : ∃ w, words[i]? = some w := ⟨_, List.getElem?_eq_getElem (hlength ▸ hi)⟩
    have hdecode : Instruction.decode Table.standard w = .ok { mnemonic := mnemonic, rd := rd } := by
      have hplace := congrArg (fun l => l[i]?) hwords
      simpa only [List.getElem?_map, hw, hfound, Option.map_some, Option.some.injEq] using hplace
    have hslot : [0, 1, 2, 3][i]? = some i := by
      interval_cases i <;> rfl
    refine ⟨w.setImmEI (sliceOf addr i), _, ?_, Instruction.decode_setImmEI hdecode hm _, ?_⟩
    · refine h.code i _ ?_
      simp only [apply, List.getElem?_zipWith, hw, hslot]
    · rw [Nat.zero_add]
      exact hx
  obtain ⟨next, hnext, hslices⟩ := Machine.clocks?_slices hrd (by omega : 0 + 4 ≤ 4) h.standard h.running
    hloads (fun i hi => absurd hi (Nat.not_lt_zero i))
  exact ⟨next, hnext, eq_of_sliceOf hslices⟩

/-- Words that were patched for an address have the effect of the instruction. -/
theorem effect_of_code {patch : Patch} (hhosts : patch.Hosts words)
    (hreaches : patch.Reaches m.registers.pc addr)
    (h : m.StandsOn (patch.apply m.registers.pc addr words)) : patch.Effect words addr m := by
  cases patch with
  | branch => exact effect_branch hhosts hreaches h
  | jump => exact effect_jump hhosts hreaches h
  | slice => exact effect_slice hhosts h
  | address => exact effect_address hhosts h

end Patch

namespace Emulator

/-- Relocations mean what they say. Let sources be assembled, linked and loaded into an emulator with the
    standard tables. In every state of the loaded machine, at the address where the instruction of a
    relocation is laid out, executing the instruction does with the address of its label what it is for. -/
theorem relocations_effect (e : Emulator σ) (hstandard : e.machine.Standard)
    (inputs : List Linker.Input)
    (hassembled : ∀ input ∈ inputs,
      ∃ (host : Assembler.Host) (predefined : Assembler.Equates) (source : Text),
        (Assembler.assemble { host := host, predefined := predefined } source).2 = .ok input.file)
    (exe : ObjectFile) (hlink : (Linker.link ⟨inputs⟩).1 = .ok exe)
    (hload : (e.load (some exe)).error = none) :
    ∃ globals layouts placed, Linker.merge inputs = .ok globals ∧
      Linker.layOutAll inputs = .ok (layouts, placed) ∧
      let scene := Linker.sceneOf inputs globals layouts
      ∀ (index : Nat) (input : Linker.Input), inputs[index]? = some input →
        ∀ r ∈ input.file.relocations, ∃ (patch : Patch) (addr : UInt64),
          r.kind.patch? = some patch ∧ Linker.target? scene index input.file r = some addr ∧
          ∀ m : Machine σ,
            Relation.ReflTransGen Machine.Change (e.load (some exe)).emulator.machine m →
            m.halted = false → m.registers.pc = scene.base r.kind.segment index + r.position →
            patch.Effect
              (Bytes.wordsAt (input.bytes r.kind.segment) r.position.toNat patch.words) addr m := by
  have hwell : ∀ input ∈ inputs, input.file.WellFormed := by
    intro input hinput
    obtain ⟨host, predefined, source, h⟩ := hassembled input hinput
    exact Assembler.assemble_wellFormed h
  obtain ⟨log, hcombine⟩ : ∃ log, Linker.combine inputs = .ok (exe, log) := by
    rw [Linker.link] at hlink
    split at hlink
    · rename_i file log hcombine
      cases hlink
      exact ⟨log, hcombine⟩
    · cases hlink
  obtain ⟨-, hholds, htable, hactions, -⟩ := load_eq_none hload
  have hloaded : (e.load (some exe)).emulator.machine.Standard :=
    ⟨htable.trans hstandard.table, hactions.trans hstandard.actions⟩
  obtain ⟨globals, layouts, placed, hmerge, hlaid, hcode, hpatched⟩ := Linker.combine_patched hwell hcombine
  refine ⟨globals, layouts, placed, hmerge, hlaid, ?_⟩
  intro scene index input hinput r hr
  obtain ⟨s, patch, hplaced⟩ := (hwell input (List.mem_of_getElem? hinput)).placed r hr
  obtain rfl : r.kind.segment = s := hplaced.segment_eq
  have hstanding : Linker.Job.Standing inputs layouts ⟨index, input, r⟩ patch :=
    ⟨hinput, hr, hplaced, Linker.layOutAll_spread hwell hlaid hplaced.code⟩
  obtain ⟨hpc, hinside, addr, htarget, hreaches, hwords⟩ := hpatched _ patch hstanding
  refine ⟨patch, addr, hplaced.patch?_eq, htarget, ?_⟩
  intro m hm hrunning hmpc
  have hmstandard := hloaded.changes hm
  have hmholds := hholds.changes hm
  have hhere : m.registers.pc = Linker.Job.pc scene ⟨index, input, r⟩ := hmpc
  obtain ⟨hbase, hfits, hsize⟩ := hcode _ hplaced.code
  rw [← hhere] at hpc hreaches hwords
  -- memory has the words of the executable there, and those are the patched words of the object
  have hstands := standsOn_wordsAt hmstandard hrunning hmholds hplaced.code hbase hfits hsize hpc hinside
  exact Patch.effect_of_code hplaced.hosts hreaches (hwords ▸ hstands)

/-- A source that calls the instruction after the call, and loads the address of the call. -/
def callSource : Text :=
  Text.ofString ".text\n.entry main\nmain: jal next\nnext: la %v0, main\n"

/-- The place, the patch and the target of the relocations of an object that is linked alone. -/
def soleRelocations? (file : ObjectFile) : Option (List (UInt64 × Option Patch × Option UInt64)) :=
  let inputs : List Linker.Input := [⟨[], file⟩]
  match Linker.merge inputs, Linker.layOutAll inputs with
  | .ok globals, .ok (layouts, _) =>
    let scene := Linker.sceneOf inputs globals layouts
    some (file.relocations.map fun r =>
      (scene.base r.kind.segment 0 + r.position, r.kind.patch?, Linker.target? scene 0 file r))
  | _, _ => none

/-- The address that an object starts at when it is linked alone and loaded. -/
def soleStart? (file : ObjectFile) : Option UInt64 :=
  match (Linker.link ⟨[⟨[], file⟩]⟩).1 with
  | .ok exe =>
    let loaded := bareEmulator.load (some exe)
    if loaded.error.isNone then some loaded.emulator.machine.registers.pc else none
  | .error _ => none

theorem relocations_effect_callSource : ∃ file exe : ObjectFile,
    (Assembler.assemble (Command.assembler []) callSource).2 = .ok file ∧
    (Linker.link ⟨[⟨[], file⟩]⟩).1 = .ok exe ∧
    (bareEmulator.load (some exe)).error = none ∧
    ∃ next, (bareEmulator.load (some exe)).emulator.machine.clocks? 1 = some next ∧
      next.registers.pc = Segment.textBase + 4 := by
  have hplaces : (Assembler.assemble (Command.assembler []) callSource).2.toOption.map soleRelocations? =
      some (some [(Segment.textBase, some .jump, some (Segment.textBase + 4)),
        (Segment.textBase + 4, some .address, some Segment.textBase)]) := by
    decide +kernel
  have hstart : (Assembler.assemble (Command.assembler []) callSource).2.toOption.map soleStart? =
      some (some Segment.textBase) := by
    decide +kernel
  cases hfile : (Assembler.assemble (Command.assembler []) callSource).2 with
  | error e =>
      rw [hfile] at hstart
      cases hstart
  | ok file =>
      rw [hfile] at hplaces hstart
      replace hplaces := Option.some.inj hplaces
      replace hstart := Option.some.inj hstart
      rw [soleStart?] at hstart
      split at hstart
      · rename_i exe hlink
        simp only at hstart
        split at hstart
        · rename_i hloads
          have hload := Option.isNone_iff_eq_none.1 hloads
          have hassembled : ∀ input ∈ [(⟨[], file⟩ : Linker.Input)],
              ∃ (host : Assembler.Host) (predefined : Assembler.Equates) (source : Text),
                (Assembler.assemble { host := host, predefined := predefined } source).2 = .ok input.file := by
            intro input hinput
            rw [List.mem_singleton.1 hinput]
            exact ⟨Command.host, [], callSource, hfile⟩
          obtain ⟨globals, layouts, placed, hmerge, hlaid, heffect⟩ :=
            relocations_effect bareEmulator ⟨rfl, rfl⟩ _ hassembled exe hlink hload
          simp only [soleRelocations?, hmerge, hlaid, Option.some.injEq] at hplaces
          obtain ⟨r, rest, hrelocations, hr, -⟩ := List.map_eq_cons_iff.1 hplaces
          simp only [Prod.mk.injEq] at hr
          obtain ⟨hpc, hpatch, htarget⟩ := hr
          obtain ⟨patch, addr, hpatch', htarget', hm⟩ := heffect 0 ⟨[], file⟩ rfl r
            (hrelocations ▸ List.mem_cons_self)
          rw [hpatch, Option.some.injEq] at hpatch'
          subst hpatch'
          rw [htarget, Option.some.injEq] at htarget'
          subst htarget'
          have hrunning := (load_eq_none hload).2.2.2.2.1
          obtain ⟨x, next, -, -, hnext, hgoes, -⟩ :=
            hm _ .refl hrunning ((Option.some.inj hstart).trans hpc.symm)
          exact ⟨file, exe, rfl, hlink, hload, next, hnext, hgoes⟩
        · cases hstart
      · cases hstart

end Emulator

end VectorRisc
