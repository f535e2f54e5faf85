/-
Module: VectorRisc.Proofs.Emulator.Decoding
Layer: Proofs
Purpose: Linked code decodes. Every word of the code of an executable that sources are assembled and linked
  into is the instruction that the listing of its source has there, up to the immediate; so a run of the
  executable comes to a word that is no instruction only after a jump to an address between words.
Imports: Mathlib.Tactic, VectorRisc.Command.Host, VectorRisc.Proofs.Assembler.Listing,
  VectorRisc.Proofs.Emulator.Code, VectorRisc.Proofs.Machine.Alignment, VectorRisc.Proofs.Object.Words
Trusted boundary: none
Main exports: ObjectFile.Readable, Emulator.Holds.decodes, Emulator.ticks_astray, Assembler.Source,
  Emulator.linked_decodes
Open obligations: none
-/
import Mathlib.Tactic
import VectorRisc.Command.Host
import VectorRisc.Proofs.Assembler.Listing
import VectorRisc.Proofs.Emulator.Code
import VectorRisc.Proofs.Machine.Alignment
import VectorRisc.Proofs.Object.Words

namespace VectorRisc

/-! ### Code that is made of instructions -/

/-- The code of a program is made of instructions: its sections stand on words, take the memory of their
    data, and each of their words decodes. -/
structure ObjectFile.Readable (program : ObjectFile) : Prop where
  addr : ∀ s : Segment, s.isCode = true → 4 ∣ (program.sections.get s).addr.toNat
  fits : ∀ s : Segment, s.isCode = true → (program.sections.get s).data.size < 2 ^ 64
  memory : ∀ s : Segment, s.isCode = true →
    (program.sections.get s).memSize = Bytes.size64 (program.sections.get s).data
  decodes : ∀ s : Segment, s.isCode = true →
    ∀ o, 4 ∣ o → o + 4 ≤ (program.sections.get s).data.size →
      ∃ x, Instruction.decode Table.standard (Bytes.wordAt (program.sections.get s).data o) = .ok x

namespace Emulator

/-- The image of a section that takes the memory of its data is its data. -/
theorem image_eq_toList {c : Section} (hfits : c.data.size < 2 ^ 64)
    (hmemory : c.memSize = Bytes.size64 c.data) : c.image = Bytes.toList c.data := by
  have hsize : c.size.toNat = c.data.size := by
    rw [Section.size, hmemory, ite_self, Bytes.toNat_size64 hfits]
  rw [Section.image_of_lt hfits, hsize, Nat.sub_self, List.replicate_zero, List.append_nil]

/-- What is fetched at the address of a word is an instruction. -/
theorem Holds.decodes {program : ObjectFile} {m : Memory} (h : Holds program m)
    (hprogram : program.Readable) {pc : UInt64} (hpc : 4 ∣ pc.toNat) {word : Word}
    (hfetch : m.fetch pc = .ok word) : ∃ x, Instruction.decode Table.standard word = .ok x := by
  obtain ⟨s, offset, hcode, -, hplace, hin, rfl⟩ := h.fetch_eq_ok hfetch
  have hfits := hprogram.fits s hcode
  have haddr := hprogram.addr s hcode
  rw [image_eq_toList hfits (hprogram.memory s hcode)] at hin ⊢
  rw [Bytes.length_toList] at hin
  have hoffset : 4 ∣ offset := by
    rw [hplace, UInt64.toNat_add, UInt64.toNat_ofNat'] at hpc
    omega
  rw [← Bytes.window_eq hin]
  exact hprogram.decodes s hcode offset hoffset hin

end Emulator

variable {σ : Type} [FileSystem σ]

/-- A clock meets an error of instructions only at a word that does not decode. -/
theorem Machine.decode_of_clock {m : Machine σ} {cause : Instruction.Error}
    (h : m.clock.error = some (.instruction cause)) :
    ∃ word, m.memory.fetch m.registers.pc = .ok word ∧ Instruction.decode m.table word = .error cause := by
  rcases clock_cases m with ⟨-, -, met, hmet, hstalled⟩ | ⟨-, -, word, x, action, hfound, hperformed, -⟩
  · obtain rfl : met = .instruction cause := Option.some.inj (hmet.symm.trans h)
    rcases hstalled with ⟨-, hhalted⟩ | ⟨-, hnone⟩
    · cases hhalted
    · rw [instructionAt] at hnone
      split at hnone
      · cases hnone
      · rename_i word hfetch
        split at hnone
        · rename_i hdecode
          cases hnone
          exact ⟨word, hfetch, hdecode⟩
        · split at hnone <;> cases hnone
  · -- an action is never refused for an instruction
    obtain ⟨-, hdecode, -⟩ := instructionAt_eq_ok hfound
    rw [hperformed] at h
    cases perform_ended (m.ready word x) m.registers.pc (Instruction.narrow_of_decode hdecode) action with
    | refused met herror hblamed hsame =>
        obtain rfl : met = .instruction cause := Option.some.inj (herror.symm.trans h)
        cases hblamed
    | done herror hclocks hregisters =>
        rw [herror] at h
        cases h

namespace Emulator

/-! ### Runs -/

theorem ticks_succ (n : Nat) (e : Emulator σ) : e.ticks (n + 1) = (e.ticks n).tick.emulator := by
  induction n generalizing e with
  | zero => rfl
  | succ n ih => exact ih e.tick.emulator

/-- A tick leaves the program counter on a word, unless it jumps astray. -/
theorem tick_aligned {e : Emulator σ} (hstandard : e.machine.Standard)
    (h : 4 ∣ e.machine.registers.pc.toNat) :
    4 ∣ e.tick.emulator.machine.registers.pc.toNat ∨ e.machine.JumpsAstray := by
  rw [tick]
  split
  · exact .inl h
  · split
    · exact .inl h
    · rcases Machine.clock_aligned (m := { e.machine with
        tracing := { e.machine.tracing with steps := e.verbose } })
        ⟨hstandard.table, hstandard.actions⟩ h with haligned | ⟨x, linked, hfaces, hastray⟩
      · exact .inl haligned
      · exact .inr ⟨x, linked, ⟨hfaces.running, hfaces.found⟩, hastray⟩

/-- A program counter that has left the words did so by a jump astray, and has not come back since. -/
theorem ticks_astray {e : Emulator σ} (hstandard : e.machine.Standard)
    (hstart : 4 ∣ e.machine.registers.pc.toNat) {n : Nat}
    (h : ¬4 ∣ (e.ticks n).machine.registers.pc.toNat) :
    ∃ k < n, 4 ∣ (e.ticks k).machine.registers.pc.toNat ∧ (e.ticks k).machine.JumpsAstray ∧
      ∀ j, k < j → j ≤ n → ¬4 ∣ (e.ticks j).machine.registers.pc.toNat := by
  induction n with
  | zero => exact absurd hstart h
  | succ n ih =>
      by_cases hbefore : 4 ∣ (e.ticks n).machine.registers.pc.toNat
      · rcases tick_aligned (hstandard.changes (ticks_change n e)) hbefore with haligned | hastray
        · rw [← ticks_succ] at haligned
          exact absurd haligned h
        · refine ⟨n, Nat.lt_succ_self n, hbefore, hastray, ?_⟩
          intro j hafter hj
          obtain rfl : j = n + 1 := by omega
          exact h
      · obtain ⟨k, hk, haligned, hastray, hafter⟩ := ih hbefore
        refine ⟨k, by omega, haligned, hastray, ?_⟩
        intro j hj hend
        rcases Nat.lt_or_eq_of_le hend with hearlier | rfl
        · exact hafter j hj (by omega)
        · exact h

/-- A tick that comes to a word that is no instruction does so between the words. -/
theorem tick_unreadable {e : Emulator σ} (hstandard : e.machine.Standard) {program : ObjectFile}
    (hholds : Holds program e.machine.memory) (hprogram : program.Readable) {pc : UInt64}
    {cause : Instruction.Error} (h : e.tick.error = some (.runtime pc (.instruction cause))) :
    pc = e.machine.registers.pc ∧ ¬4 ∣ pc.toNat := by
  rw [tick] at h
  split at h
  · cases h
  · split at h
    · cases h
    · obtain ⟨met, hclock, hmet⟩ := Option.map_eq_some_iff.1 h
      obtain ⟨rfl, rfl⟩ := Error.runtime.inj hmet
      obtain ⟨word, hfetch, hdecode⟩ := Machine.decode_of_clock hclock
      refine ⟨rfl, fun hpc => ?_⟩
      obtain ⟨x, hx⟩ := hholds.decodes hprogram hpc hfetch
      rw [hstandard.table, hx] at hdecode
      cases hdecode

/-- A program that loads starts on a word. -/
theorem entry_aligned {program : ObjectFile} (h : unfit? program = none) : 4 ∣ program.entry.toNat := by
  have hmask : (program.entry &&& 3).toNat = program.entry.toNat % 2 ^ 2 := by
    rw [UInt64.toNat_and]
    exact Nat.and_two_pow_sub_one_eq_mod _ 2
  have hzero : program.entry &&& 3 = 0 := by
    rw [unfit?] at h
    split at h
    · cases h
    · split at h
      · cases h
      · rename_i hentry
        simp only [Bool.or_eq_true, not_or] at hentry
        simpa using hentry.1
  rw [hzero, UInt64.toNat_zero] at hmask
  exact Nat.dvd_of_mod_eq_zero hmask.symm

/-- A loaded program whose code is made of instructions comes to a word that is none only between the
    words, after a jump astray. -/
theorem ticks_unreadable {e : Emulator σ} (hstandard : e.machine.Standard) {program : ObjectFile}
    (hprogram : program.Readable) (hload : (e.load (some program)).error = none) {n : Nat} {pc : UInt64}
    {cause : Instruction.Error}
    (h : ((e.load (some program)).emulator.ticks n).tick.error = some (.runtime pc (.instruction cause))) :
    let loaded := (e.load (some program)).emulator
    ¬4 ∣ pc.toNat ∧ ∃ k < n, 4 ∣ (loaded.ticks k).machine.registers.pc.toNat ∧
      (loaded.ticks k).machine.JumpsAstray ∧
      ∀ j, k < j → j ≤ n → ¬4 ∣ (loaded.ticks j).machine.registers.pc.toNat := by
  intro loaded
  obtain ⟨hfit, hholds, htable, hactions, -, -, hentry⟩ := load_eq_none hload
  have hloaded : loaded.machine.Standard :=
    ⟨htable.trans hstandard.table, hactions.trans hstandard.actions⟩
  have hstart : 4 ∣ loaded.machine.registers.pc.toNat := by
    rw [hentry]
    exact entry_aligned hfit
  have hrun := ticks_change n loaded
  obtain ⟨rfl, hpc⟩ := tick_unreadable (hloaded.changes hrun) (hholds.changes hrun) hprogram h
  exact ⟨hpc, ticks_astray hloaded hstart hpc⟩

end Emulator

/-! ### Sources -/

namespace Assembler

/-- A source, with the host that it is assembled on and the equates that its assembly starts with. -/
structure Source where
  host : Host
  predefined : Equates := []
  text : Text

namespace Source

/-- The state at the end of the assembly of a source, and its object. -/
def assembled (source : Source) : State × Except Error ObjectFile :=
  assemble { host := source.host, predefined := source.predefined } source.text

/-- A word is an instruction with the mnemonic and the registers of the code that the listing of a source
    has for an offset. -/
def Tells (source : Source) (s : Segment) (offset : Nat) (word : Word) : Prop :=
  ∃ code x y, source.assembled.1.listing.codeAt? s (UInt64.ofNat offset) = some code ∧
    Instruction.decode Table.standard code = .ok x ∧ Instruction.decode Table.standard word = .ok y ∧
    y.Alike x

end Source

end Assembler

namespace Linker

section Sources

variable {sources : List Assembler.Source} {inputs : List Input}

theorem exists_source
    (h : List.Forall₂ (fun source input => source.assembled.2 = .ok input.file) sources inputs) {i : Nat}
    {input : Input} (hinput : inputs[i]? = some input) :
    ∃ source, sources[i]? = some source ∧ source.assembled.2 = .ok input.file := by
  obtain ⟨hi, rfl⟩ := List.getElem?_eq_some_iff.1 hinput
  have hi' : i < sources.length := h.length_eq ▸ hi
  exact ⟨_, List.getElem?_eq_getElem hi', h.get hi' hi⟩

theorem wellFormed_of_assembled
    (h : List.Forall₂ (fun source input => source.assembled.2 = .ok input.file) sources inputs) :
    ∀ input ∈ inputs, input.file.WellFormed := by
  intro input hinput
  obtain ⟨i, hi⟩ := List.mem_iff_getElem?.1 hinput
  obtain ⟨source, -, hobject⟩ := exists_source h hi
  exact Assembler.assemble_wellFormed hobject

end Sources

/-- Every word of linked code lies in the section of a source, whose listing tells it. The program that is
    linked is made of instructions. -/
theorem combine_tells {sources : List Assembler.Source} {inputs : List Input}
    (hassembled : List.Forall₂ (fun source input => source.assembled.2 = .ok input.file) sources inputs)
    {exe : ObjectFile} {log : List Event} (h : combine inputs = .ok (exe, log)) :
    exe.Readable ∧ ∃ layouts placed, layOutAll inputs = .ok (layouts, placed) ∧
      ∀ s : Segment, s.isCode = true → ∀ o, 4 ∣ o → o + 4 ≤ (exe.sections.get s).data.size →
        ∃ index source input k, sources[index]? = some source ∧ inputs[index]? = some input ∧
          k + 4 ≤ (input.bytes s).size ∧
          o = (layouts.get s).offsetOf (exe.sections.get s).addr index + k ∧
          source.Tells s k (Bytes.wordAt (exe.sections.get s).data o) := by
  obtain ⟨layouts, placed, hlaid, hsections⟩ := combine_words (wellFormed_of_assembled hassembled) h
  have hwords : ∀ s : Segment, s.isCode = true → ∀ o, 4 ∣ o → o + 4 ≤ (exe.sections.get s).data.size →
      ∃ index source input k, sources[index]? = some source ∧ inputs[index]? = some input ∧
        k + 4 ≤ (input.bytes s).size ∧
        o = (layouts.get s).offsetOf (exe.sections.get s).addr index + k ∧
        source.Tells s k (Bytes.wordAt (exe.sections.get s).data o) := by
    intro s hcode o ho hin
    obtain ⟨-, -, -, horigin⟩ := hsections s hcode
    obtain ⟨i, input, k, hinput, hk, hinside, hplace, hdecodes⟩ := horigin o ho hin
    obtain ⟨source, hi, hobject⟩ := exists_source hassembled hinput
    obtain ⟨hlisted, x, hx⟩ := Assembler.assemble_listed hobject hcode hk hinside
    obtain ⟨y, hy, halike⟩ := hdecodes x hx
    exact ⟨i, source, input, k, hi, hinput, hinside, hplace, _, x, y, hlisted, hx, hy, halike⟩
  refine ⟨⟨?_, ?_, ?_, ?_⟩, layouts, placed, hlaid, hwords⟩
  · intro s hcode
    rw [(hsections s hcode).1]
    cases s <;> decide
  · exact fun s hcode => (hsections s hcode).2.1
  · exact fun s hcode => (hsections s hcode).2.2.1
  · intro s hcode o ho hin
    obtain ⟨-, -, -, -, -, -, -, -, -, -, y, -, -, hy, -⟩ := hwords s hcode o ho hin
    exact ⟨y, hy⟩

end Linker

namespace Emulator

/-- Linked code decodes. Let sources be assembled and linked. Every word of the code of the executable lies
    in the section of one of the sources, is an instruction, and has the mnemonic and the registers of the
    code that the listing of this source has for the offset there. So a run of the executable, in an
    emulator with the standard tables, comes to a word that is no instruction only at an address between
    words, where it has been since it jumped by a register that held such an address. -/
theorem linked_decodes (sources : List Assembler.Source) (inputs : List Linker.Input)
    (hassembled : List.Forall₂ (fun source input => source.assembled.2 = .ok input.file) sources inputs)
    (exe : ObjectFile) (hlink : (Linker.link ⟨inputs⟩).1 = .ok exe) :
    (∃ layouts placed, Linker.layOutAll inputs = .ok (layouts, placed) ∧
      ∀ s : Segment, s.isCode = true → ∀ o, 4 ∣ o → o + 4 ≤ (exe.sections.get s).data.size →
        ∃ index source input k, sources[index]? = some source ∧ inputs[index]? = some input ∧
          k + 4 ≤ (input.bytes s).size ∧
          o = (layouts.get s).offsetOf (exe.sections.get s).addr index + k ∧
          source.Tells s k (Bytes.wordAt (exe.sections.get s).data o)) ∧
    ∀ e : Emulator σ, e.machine.Standard → (e.load (some exe)).error = none →
      let loaded := (e.load (some exe)).emulator
      ∀ n pc cause, (loaded.ticks n).tick.error = some (.runtime pc (.instruction cause)) →
        ¬4 ∣ pc.toNat ∧ ∃ k < n, 4 ∣ (loaded.ticks k).machine.registers.pc.toNat ∧
          (loaded.ticks k).machine.JumpsAstray ∧
          ∀ j, k < j → j ≤ n → ¬4 ∣ (loaded.ticks j).machine.registers.pc.toNat := by
  obtain ⟨log, hcombine⟩ := Linker.combine_of_link hlink
  obtain ⟨hreadable, htells⟩ := Linker.combine_tells hassembled hcombine
  refine ⟨htells, ?_⟩
  intro e hstandard hload loaded n pc cause h
  exact ticks_unreadable hstandard hreadable hload h

/-- A source that calls a routine of another one. -/
def caller : Assembler.Source where
  host := Command.host
  text := Text.ofString ".text\n.entry main\n.extern skip\nmain: jal skip\nli %v0, 10\nsyscall\n"

/-- A routine that returns to the byte after the call. -/
def strayReturn : Assembler.Source where
  host := Command.host
  text := Text.ofString ".text\n.global skip\nskip: addi %ra, %ra, 1\nret\n"

/-- The size of the code of two objects that are linked and loaded, and the error of the fourth tick. -/
def pairRun? (first second : ObjectFile) : Option (Nat × Option Error) :=
  match (Linker.link ⟨[⟨[], first⟩, ⟨[], second⟩]⟩).1 with
  | .error _ => none
  | .ok exe =>
    let loaded := bareEmulator.load (some exe)
    if loaded.error.isNone then
      some ((exe.sections.get .text).data.size, (loaded.emulator.ticks 3).tick.error)
    else none

theorem linked_decodes_strayReturn : ∃ first second exe : ObjectFile,
    caller.assembled.2 = .ok first ∧ strayReturn.assembled.2 = .ok second ∧
    (Linker.link ⟨[⟨[], first⟩, ⟨[], second⟩]⟩).1 = .ok exe ∧
    (bareEmulator.load (some exe)).error = none ∧
    (∃ (source : Assembler.Source) (k : Nat),
      source.Tells .text k (Bytes.wordAt (exe.sections.get .text).data 12)) ∧
    ∃ k < 3, ((bareEmulator.load (some exe)).emulator.ticks k).machine.JumpsAstray := by
  have hrun : (caller.assembled.2.toOption.bind fun first =>
      strayReturn.assembled.2.toOption.bind (pairRun? first)) =
      some (20, some (.runtime 0x400005 (.instruction (.badWord 0x05000a01)))) := by
    decide +kernel
  cases hfirst : caller.assembled.2 with
  | error e =>
      rw [hfirst] at hrun
      cases hrun
  | ok first =>
      cases hsecond : strayReturn.assembled.2 with
      | error e =>
          rw [hfirst, hsecond] at hrun
          cases hrun
      | ok second =>
          rw [hfirst, hsecond] at hrun
          simp only [Except.toOption, Option.bind_some, pairRun?] at hrun
          split at hrun
          · cases hrun
          · rename_i exe hlink
            split at hrun
            · rename_i hloads
              obtain ⟨hsize, herror⟩ := Prod.mk.inj (Option.some.inj hrun)
              have hload := Option.isNone_iff_eq_none.1 hloads
              obtain ⟨⟨layouts, placed, -, htells⟩, hstray⟩ := @linked_decodes Disk _ [caller, strayReturn]
                [⟨[], first⟩, ⟨[], second⟩] (.cons hfirst (.cons hsecond .nil)) exe hlink
              obtain ⟨-, source, -, k, -, -, -, -, htold⟩ := htells .text rfl 12 (by decide) (by omega)
              obtain ⟨-, j, hj, -, hastray, -⟩ := hstray bareEmulator ⟨rfl, rfl⟩ hload 3 _ _ herror
              exact ⟨first, second, exe, rfl, rfl, hlink, hload, ⟨source, k, htold⟩, j, hj, hastray⟩
            · cases hrun

end Emulator

end VectorRisc
