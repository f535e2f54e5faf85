/-
Module: VectorRisc.Proofs.Emulator.Entry
Layer: Proofs
Purpose: The entry point survives linking. The one source that declares an entry gives its object the
  address of a label there; linking moves it to where the label is laid out; and a program that loads
  finds an instruction at its entry.
Imports: Mathlib.Tactic, VectorRisc.Command.Host, VectorRisc.Proofs.Emulator.Decoding,
  VectorRisc.Proofs.Machine.Failure, VectorRisc.Proofs.Object.Linkable
Trusted boundary: none
Main exports: Assembler.Source.Enters, Assembler.Source.entry_of_assembled, Linker.entryAddress_eq,
  Linker.combine_entry, Emulator.entry_inside, Emulator.first_tick, Emulator.entry_survives
Open obligations: none
-/
import Mathlib.Tactic
import VectorRisc.Command.Host
import VectorRisc.Proofs.Emulator.Decoding
import VectorRisc.Proofs.Machine.Failure
import VectorRisc.Proofs.Object.Linkable

namespace VectorRisc

/-! ### The entry of an object -/

namespace Assembler

/-- A source declares the label of a symbol of its object as the entry. -/
def Source.Enters (source : Source) (file : ObjectFile) (symbol : Symbol) : Prop :=
  ∃ label reference, source.assembled.1.entry = some (label, reference) ∧
    file.symbol? label = some symbol

end Assembler

namespace ObjectFile.WellFormed

variable {file : ObjectFile} {symbol : Symbol}

/-- The address of a symbol is not wrapped around. -/
theorem toNat_addressOf (h : file.WellFormed) (hsymbol : symbol ∈ file.symbols) :
    (file.addressOf symbol).toNat = symbol.kind.segment.base.toNat + symbol.position.toNat := by
  have hinside := h.inside symbol hsymbol
  have hsize := h.size symbol.kind.segment
  have hbase : symbol.kind.segment.base.toNat ≤ 0x90000000 := by
    cases symbol.kind.segment <;> decide
  rw [Bytes.lengthMax] at hsize
  rw [addressOf, h.addr, UInt64.toNat_add]
  omega

/-- No symbol has the address that stands for no entry. -/
theorem addressOf_ne_zero (h : file.WellFormed) (hsymbol : symbol ∈ file.symbols) :
    file.addressOf symbol ≠ 0 := by
  intro hzero
  have haddress := h.toNat_addressOf hsymbol
  have hbase : 0 < symbol.kind.segment.base.toNat := by
    cases symbol.kind.segment <;> decide
  rw [hzero, UInt64.toNat_zero] at haddress
  omega

end ObjectFile.WellFormed

namespace Assembler.Source

variable {source : Source} {file : ObjectFile}

/-- The object of a source has an entry if the source declares one, and that is the address of its label. -/
theorem entry_of_assembled (h : source.assembled.2 = .ok file) :
    (source.assembled.1.entry ≠ none ↔ file.entry ≠ 0) ∧
      (file.entry ≠ 0 → ∃ symbol, source.Enters file symbol ∧ symbol ∈ file.symbols ∧
        file.entry = file.addressOf symbol) := by
  obtain ⟨s, -, -, hfinish, hlast⟩ := assemble_eq_ok h
  have hlast : source.assembled.1 = s.finish.1 := hlast
  simp only [Enters, hlast]
  rcases (finished_of_finish hfinish).entry with
    ⟨hnone, hzero⟩ | ⟨label, reference, symbol, hsome, hsymbol, haddress⟩
  · simp [hnone, hzero]
  · have hmem := List.mem_of_find?_eq_some hsymbol
    have hnonzero : file.entry ≠ 0 := haddress ▸ (assemble_wellFormed h).addressOf_ne_zero hmem
    exact ⟨by simp [hsome, hnonzero], fun _ => ⟨symbol, ⟨label, reference, hsome, hsymbol⟩, hmem, haddress⟩⟩

end Assembler.Source

/-! ### The entry of an executable -/

namespace Linker

/-- The segment of an entry is told by its address, as long as user code ends below kernel code; so the
    entry goes where its label goes. -/
theorem entryAddress_eq {base : Segment → Nat → UInt64} {index : Nat} {file : ObjectFile}
    (hfile : file.WellFormed) {symbol : Symbol} (hsymbol : symbol ∈ file.symbols)
    (hentry : file.entry = file.addressOf symbol) (hcode : symbol.kind.segment.isCode = true)
    (hshort : (file.sections.get .text).data.size < (Segment.ktextBase - Segment.textBase).toNat) :
    entryAddress base index file = base symbol.kind.segment index + symbol.position := by
  have haddress := hfile.toNat_addressOf hsymbol
  have hinside := hfile.inside symbol hsymbol
  have hsegment : (if Segment.ktextBase ≤ file.entry then Segment.ktext else Segment.text) =
      symbol.kind.segment := by
    simp only [hentry, UInt64.le_iff_toNat_le, haddress]
    cases hs : symbol.kind.segment with
    | text =>
        rw [hs] at hinside
        refine if_neg (Nat.not_le.2 ?_)
        calc Segment.text.base.toNat + symbol.position.toNat
            ≤ Segment.textBase.toNat + (file.sections.get .text).data.size :=
              Nat.add_le_add_left hinside _
          _ < Segment.textBase.toNat + (Segment.ktextBase - Segment.textBase).toNat :=
              Nat.add_lt_add_left hshort _
          _ = Segment.ktextBase.toNat := rfl
    | ktext => exact if_pos (Nat.le_add_right _ _)
    | data => rw [hs] at hcode; cases hcode
    | kdata => rw [hs] at hcode; cases hcode
  have hposition : file.entry - (file.sections.get symbol.kind.segment).addr = symbol.position := by
    rw [hentry, ObjectFile.addressOf, UInt64.add_comm, UInt64.add_sub_cancel]
  simp only [entryAddress, hsegment, hposition]

/-- The entry of an executable comes from the one input that has an entry. -/
theorem combine_entry {inputs : List Input} {exe : ObjectFile} {log : List Event}
    (h : combine inputs = .ok (exe, log)) :
    ∃ layouts placed index input, layOutAll inputs = .ok (layouts, placed) ∧
      inputs[index]? = some input ∧ input.file.entry ≠ 0 ∧
      (∀ i other, inputs[i]? = some other → other.file.entry ≠ 0 → i = index) ∧
      exe.entry = entryAddress (fun s => (layouts.get s).baseOf) index input.file := by
  obtain ⟨-, layouts, placed, -, -, index, owner, -, hlaid, -, hfound, howner, rfl⟩ := combine_steps h
  rcases entryFrom_eq_ok hfound with ⟨hnone, -⟩ | ⟨-, n, input, rfl, hinput, hnonzero, hsole⟩
  · cases hnone
  · rw [Nat.zero_add] at howner ⊢
    obtain rfl : input = owner := Option.some.inj (hinput.symm.trans howner)
    exact ⟨layouts, placed, n, input, hlaid, hinput, hnonzero, hsole, rfl⟩

end Linker

/-! ### The first clock -/

variable {σ : Type} [FileSystem σ]

namespace Emulator

/-- A program that is fit to run, of whole words that are instructions, enters at one of them. -/
theorem entry_inside {program : ObjectFile} (hreadable : program.Readable)
    (hwhole : ∀ s : Segment, s.isCode = true → 4 ∣ (program.sections.get s).data.size ∧
      (program.sections.get s).addr.toNat + (program.sections.get s).data.size < 2 ^ 64)
    (hfit : unfit? program = none) :
    ∃ (s : Segment) (offset : Nat), s.isCode = true ∧ 4 ∣ offset ∧
      offset + 4 ≤ (program.sections.get s).data.size ∧
      program.entry = (program.sections.get s).addr + UInt64.ofNat offset := by
  have haligned := entry_aligned hfit
  have henters : ∃ s : Segment, s.isCode = true ∧ entersIn program s = true := by
    rw [unfit?] at hfit
    split at hfit
    · cases hfit
    · split at hfit
      · cases hfit
      · rename_i hinside
        simp only [Bool.or_eq_true, Bool.not_eq_true', not_or, Bool.or_eq_false_iff, not_and,
          Bool.not_eq_false] at hinside
        cases htext : entersIn program .text with
        | true => exact ⟨.text, rfl, htext⟩
        | false => exact ⟨.ktext, rfl, hinside.2 htext⟩
  obtain ⟨s, hcode, hinside⟩ := henters
  obtain ⟨hwords, hfits⟩ := hwhole s hcode
  have haddr := hreadable.addr s hcode
  have hsize : (program.sections.get s).size.toNat = (program.sections.get s).data.size := by
    rw [Section.size, hreadable.memory s hcode, ite_self,
      Bytes.toNat_size64 (hreadable.fits s hcode)]
  simp only [entersIn, Bool.and_eq_true, decide_eq_true_eq, UInt64.le_iff_toNat_le,
    UInt64.lt_iff_toNat_lt, UInt64.toNat_add, hsize] at hinside
  rw [Nat.mod_eq_of_lt hfits] at hinside
  refine ⟨s, program.entry.toNat - (program.sections.get s).addr.toNat, hcode, by omega, by omega, ?_⟩
  apply UInt64.toNat_inj.1
  rw [UInt64.toNat_add, UInt64.toNat_ofNat']
  have hentry := program.entry.toNat_lt
  omega

/-- The machine as a tick runs it, with the tracing that the emulator asks for. -/
def traced (e : Emulator σ) : Machine σ :=
  { e.machine with tracing := { e.machine.tracing with steps := e.verbose } }

/-- What a tick comes to that executes an instruction. -/
def executes (e : Emulator σ) (word : Word) (x : Instruction) (action : Action) : Outcome σ :=
  let step := e.traced.execute e.machine.registers.pc word x action
  ⟨{ e with machine := step.machine }, step.error.map (Error.runtime e.machine.registers.pc)⟩

/-- A tick executes the instruction that the machine of a loaded program finds. -/
theorem tick_eq_executes {e : Emulator σ} {program : ObjectFile} (hprogram : e.program = some program)
    (hrunning : e.machine.halted = false) {word : Word} {x : Instruction} {action : Action}
    (hfound : e.machine.instructionAt e.machine.registers.pc = .ok (word, x, action)) :
    e.tick = e.executes word x action := by
  have hhalted : e.traced.halted = false := hrunning
  have hfaced : e.traced.instructionAt e.traced.registers.pc = .ok (word, x, action) := hfound
  have hclock : e.traced.clock = e.traced.execute e.machine.registers.pc word x action := by
    simp only [Machine.clock, hhalted, Bool.false_eq_true, if_false, hfaced]
    rfl
  rw [tick, if_neg (by simp [hprogram]), if_neg (by simp [hrunning])]
  exact congrArg (fun step : Machine.Step σ => (⟨{ e with machine := step.machine },
    step.error.map (Error.runtime e.machine.registers.pc)⟩ : Outcome σ)) hclock

/-- A program that loads finds an instruction at its entry, if its code is whole words that are
    instructions. -/
theorem first_tick {e : Emulator σ} (hstandard : e.machine.Standard) {program : ObjectFile}
    (hreadable : program.Readable)
    (hwhole : ∀ s : Segment, s.isCode = true → 4 ∣ (program.sections.get s).data.size ∧
      (program.sections.get s).addr.toNat + (program.sections.get s).data.size < 2 ^ 64)
    (hload : (e.load (some program)).error = none) :
    let loaded := (e.load (some program)).emulator
    loaded.machine.registers.pc = program.entry ∧
      ∃ word x action, loaded.machine.memory.fetch program.entry = .ok word ∧
        Instruction.decode Table.standard word = .ok x ∧
        Action.all.lookup x.mnemonic.name = some action ∧ loaded.tick = loaded.executes word x action := by
  intro loaded
  obtain ⟨hfit, hholds, htable, hactions, hrunning, hprogram, hpc⟩ := load_eq_none hload
  obtain ⟨s, offset, hcode, haligned, hinside, hentry⟩ := entry_inside hreadable hwhole hfit
  have hfits := hreadable.fits s hcode
  have hsize : (Bytes.size64 (program.sections.get s).data).toNat = (program.sections.get s).data.size :=
    Bytes.toNat_size64 hfits
  have hfetch : loaded.machine.memory.fetch program.entry =
      .ok (Bytes.wordAt (program.sections.get s).data offset) := by
    rw [hentry]
    refine hholds.fetch_wordAt hcode ?_ (hsize.symm ▸ hinside)
    rw [Section.size, hreadable.memory s hcode, ite_self, hsize]
    exact (hwhole s hcode).2
  obtain ⟨x, hdecode⟩ := hreadable.decodes s hcode offset haligned hinside
  obtain ⟨action, haction⟩ : ∃ action, Action.all.lookup x.mnemonic.name = some action := by
    obtain ⟨mnemonic, hmnemonic, hreal, -, rfl⟩ := Instruction.decode_eq_ok_iff.1 hdecode
    rw [Word.unpack_mnemonic]
    exact Option.isSome_iff_exists.1 (Mnemonic.standard_action mnemonic hmnemonic hreal)
  refine ⟨hpc, _, x, action, hfetch, hdecode, haction, tick_eq_executes hprogram hrunning ?_⟩
  rw [hpc, Machine.instructionAt, hfetch]
  simp only [htable.trans hstandard.table, hdecode, hactions.trans hstandard.actions, haction]

/-- The entry point survives linking. Let sources be assembled and linked. One of them declares an entry,
    the label of a symbol of its object. If the label is in code, and the user code of the object ends below
    kernel code, the entry of the executable is the address of the label where the object is laid out. An
    emulator with the standard tables that loads the executable begins with executing an instruction that
    it fetches there. -/
theorem entry_survives (sources : List Assembler.Source) (inputs : List Linker.Input)
    (hassembled : List.Forall₂ (fun source input => source.assembled.2 = .ok input.file) sources inputs)
    (exe : ObjectFile) (hlink : (Linker.link ⟨inputs⟩).1 = .ok exe) :
    (∃ layouts placed index source input symbol, Linker.layOutAll inputs = .ok (layouts, placed) ∧
      sources[index]? = some source ∧ inputs[index]? = some input ∧
      (∀ i other, sources[i]? = some other → (other.assembled.1.entry ≠ none ↔ i = index)) ∧
      source.Enters input.file symbol ∧
      (symbol.kind.segment.isCode = true →
        (input.bytes .text).size < (Segment.ktextBase - Segment.textBase).toNat →
        exe.entry = (layouts.get symbol.kind.segment).baseOf index + symbol.position)) ∧
    ∀ e : Emulator σ, e.machine.Standard → (e.load (some exe)).error = none →
      let loaded := (e.load (some exe)).emulator
      loaded.machine.registers.pc = exe.entry ∧
        ∃ word x action, loaded.machine.memory.fetch exe.entry = .ok word ∧
          Instruction.decode Table.standard word = .ok x ∧
          Action.all.lookup x.mnemonic.name = some action ∧
          loaded.tick = loaded.executes word x action := by
  obtain ⟨log, hcombine⟩ := Linker.combine_of_link hlink
  have hwell := Linker.wellFormed_of_assembled hassembled
  constructor
  · obtain ⟨layouts, placed, index, input, hlaid, hinput, hnonzero, hsole, hentry⟩ :=
      Linker.combine_entry hcombine
    obtain ⟨source, hsource, hobject⟩ := Linker.exists_source hassembled hinput
    obtain ⟨hdeclared, hsymbol⟩ := Assembler.Source.entry_of_assembled hobject
    obtain ⟨symbol, henters, hmem, haddress⟩ := hsymbol hnonzero
    refine ⟨layouts, placed, index, source, input, symbol, hlaid, hsource, hinput, ?_, henters, ?_⟩
    · intro i other hother
      constructor
      · intro hdeclares
        obtain ⟨hi, rfl⟩ := List.getElem?_eq_some_iff.1 hother
        have hi' : i < inputs.length := hassembled.length_eq ▸ hi
        refine hsole i inputs[i] (List.getElem?_eq_getElem hi') ?_
        exact (Assembler.Source.entry_of_assembled (hassembled.get hi hi')).1.1 hdeclares
      · rintro rfl
        obtain rfl := Option.some.inj (hsource.symm.trans hother)
        exact hdeclared.2 hnonzero
    · intro hcode hshort
      rw [hentry]
      exact Linker.entryAddress_eq (hwell input (List.mem_of_getElem? hinput)) hmem haddress hcode hshort
  · intro e hstandard hload
    obtain ⟨layouts, placed, -, hcoded⟩ := Linker.combine_coded hwell hcombine
    refine first_tick hstandard (Linker.combine_tells hassembled hcombine).1 (fun s hcode => ?_) hload
    exact ⟨(hcoded s hcode).dvd_size, (hcoded s hcode).addr.symm ▸ (hcoded s hcode).fits⟩

/-- A source with kernel code. -/
def idleSource : Assembler.Source where
  host := Command.host
  text := Text.ofString ".ktext\n.global idle\nidle: j idle\n"

/-- A source whose kernel code goes before that of others, with the entry in it. -/
def bootSource : Assembler.Source where
  host := Command.host
  text := Text.ofString ".ktext\n.kstart\n.entry boot\n.extern idle\nstop: j idle\nboot: syscall\n"

/-- All labels of an object are in code, and its user code ends below kernel code. -/
def soleInCode (file : ObjectFile) : Bool :=
  file.symbols.all (fun sym => sym.kind.segment.isCode) &&
    (file.sections.get .text).data.size < (Segment.ktextBase - Segment.textBase).toNat

/-- The entry of two objects that are linked and loaded. -/
def pairStart? (first second : ObjectFile) : Option UInt64 :=
  match (Linker.link ⟨[⟨[], first⟩, ⟨[], second⟩]⟩).1 with
  | .error _ => none
  | .ok exe => if (bareEmulator.load (some exe)).error.isNone then some exe.entry else none

theorem entry_survives_bootSource : ∃ first second exe : ObjectFile,
    idleSource.assembled.2 = .ok first ∧ bootSource.assembled.2 = .ok second ∧
    (Linker.link ⟨[⟨[], first⟩, ⟨[], second⟩]⟩).1 = .ok exe ∧
    (bareEmulator.load (some exe)).error = none ∧ exe.entry = Segment.ktextBase + 4 ∧
    (∃ layouts placed symbol, Linker.layOutAll [⟨[], first⟩, ⟨[], second⟩] = .ok (layouts, placed) ∧
      bootSource.Enters second symbol ∧
      exe.entry = (layouts.get symbol.kind.segment).baseOf 1 + symbol.position) ∧
    ∃ word x action, (bareEmulator.load (some exe)).emulator.tick =
      (bareEmulator.load (some exe)).emulator.executes word x action := by
  have hentry : (idleSource.assembled.2.toOption.bind fun first =>
      bootSource.assembled.2.toOption.bind (pairStart? first)) = some (Segment.ktextBase + 4) := by
    decide +kernel
  have hcode : bootSource.assembled.2.toOption.map soleInCode = some true := by
    decide +kernel
  have hdeclares : bootSource.assembled.1.entry.isSome = true := by
    decide +kernel
  cases hfirst : idleSource.assembled.2 with
  | error e =>
      rw [hfirst] at hentry
      cases hentry
  | ok first =>
      cases hsecond : bootSource.assembled.2 with
      | error e =>
          rw [hsecond] at hcode
          cases hcode
      | ok second =>
          rw [hsecond] at hcode
          rw [hfirst, hsecond] at hentry
          simp only [Except.toOption, Option.bind_some, pairStart?] at hentry
          split at hentry
          · cases hentry
          · rename_i exe hlink
            split at hentry
            · rename_i hloads
              have hload := Option.isNone_iff_eq_none.1 hloads
              obtain ⟨⟨layouts, placed, index, source, input, symbol, hlaid, hsource, hinput, hsole, henters,
                haddress⟩, hstarts⟩ := @entry_survives Disk _ [idleSource, bootSource]
                  [⟨[], first⟩, ⟨[], second⟩] (.cons hfirst (.cons hsecond .nil)) exe hlink
              obtain ⟨-, word, x, action, -, -, -, htick⟩ := hstarts bareEmulator ⟨rfl, rfl⟩ hload
              obtain rfl := (hsole 1 bootSource rfl).1 (Option.isSome_iff_ne_none.1 hdeclares)
              obtain rfl := Option.some.inj hsource
              obtain rfl := Option.some.inj hinput
              obtain ⟨label, reference, hdeclared, hsymbol⟩ := henters
              replace hcode := Option.some.inj hcode
              simp only [soleInCode, Bool.and_eq_true, List.all_eq_true, decide_eq_true_eq] at hcode
              obtain ⟨hlabels, hshort⟩ := hcode
              have hplace := haddress (hlabels symbol (List.mem_of_find?_eq_some hsymbol)) hshort
              exact ⟨first, second, exe, rfl, rfl, hlink, hload, Option.some.inj hentry,
                ⟨layouts, placed, symbol, hlaid, ⟨label, reference, hdeclared, hsymbol⟩, hplace⟩,
                word, x, action, htick⟩
            · cases hentry

end Emulator

end VectorRisc
