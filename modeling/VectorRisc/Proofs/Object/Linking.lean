/-
Module: VectorRisc.Proofs.Object.Linking
Layer: Proofs
Purpose: What a link of well-formed objects comes down to. A relocation that cannot be applied is the one
  failure that names a label and a cause; such a failure never comes from a relocation that stands
  outside its section, nor from one whose label its own object defines.
Imports: Mathlib.Tactic, VectorRisc.Command.Host, VectorRisc.Proofs.Assembler.Invariant
Trusted boundary: none
Main exports: Linker.combine_steps, Linker.combine_of_link, Linker.relocate_of_combine_eq_error,
  Linker.cause_of_wellFormed, Assembler.assemble_linkable
Open obligations: none
-/
import Mathlib.Tactic
import VectorRisc.Command.Host
import VectorRisc.Proofs.Assembler.Invariant

namespace VectorRisc

namespace Linker

/-! ### A link that succeeds -/

/-- A link that succeeds has done every step: the global symbols are merged, the entry is found, the segments
    are laid out, and the images are patched. The executable is made of what they give. -/
theorem combine_steps {inputs : List Input} {exe : ObjectFile} {log : List Event}
    (h : combine inputs = .ok (exe, log)) :
    ∃ globals layouts placed images patched index owner, merge inputs = .ok globals ∧
      layOutAll inputs = .ok (layouts, placed) ∧
      relocateInputs (sceneOf inputs globals layouts) 0 inputs
        (PerSegment.ofFn fun s => (layouts.get s).image) placed = .ok (images, patched) ∧
      entryFrom 0 false none inputs = .ok index ∧ inputs[index]? = some owner ∧
      exe = {
        kind := .executable
        entry := entryAddress (fun s => (layouts.get s).baseOf) index owner.file
        sections := PerSegment.ofFn fun s =>
          { addr := segmentAddr inputs s, data := images.get s
            memSize := memSizeOf s (layouts.get s).image } } := by
  rw [combine] at h
  split at h
  · cases h
  · split at h
    · cases h
    · cases h
    · rename_i globals index hmerge hentry
      obtain ⟨⟨layouts, placed⟩, hlaid, h⟩ := bind_eq_ok.1 h
      obtain ⟨⟨images, patched⟩, hpatched, h⟩ := bind_eq_ok.1 h
      simp only at h
      split at h
      · cases h
      · rename_i owner howner
        cases h
        exact ⟨globals, layouts, placed, images, patched, index, owner, hmerge, hlaid, hpatched, hentry,
          howner, rfl⟩

/-- The parts of a link that succeeds: the global symbols, the layouts, and the patched images. -/
theorem combine_eq_ok {inputs : List Input} {exe : ObjectFile} {log : List Event}
    (h : combine inputs = .ok (exe, log)) :
    ∃ globals layouts placed images patched, merge inputs = .ok globals ∧
      layOutAll inputs = .ok (layouts, placed) ∧
      relocateInputs (sceneOf inputs globals layouts) 0 inputs
        (PerSegment.ofFn fun s => (layouts.get s).image) placed = .ok (images, patched) ∧
      ∀ s, exe.sections.get s = { addr := segmentAddr inputs s, data := images.get s
                                  memSize := memSizeOf s (layouts.get s).image } := by
  obtain ⟨globals, layouts, placed, images, patched, -, -, hmerge, hlaid, hpatched, -, -, rfl⟩ :=
    combine_steps h
  exact ⟨globals, layouts, placed, images, patched, hmerge, hlaid, hpatched, fun s =>
    PerSegment.get_ofFn _ s⟩

theorem combine_of_link {inputs : List Input} {exe : ObjectFile} (h : (link ⟨inputs⟩).1 = .ok exe) :
    ∃ log, combine inputs = .ok (exe, log) := by
  rw [link] at h
  split at h
  · rename_i file log hcombine
    cases h
    exact ⟨log, hcombine⟩
  · cases h

/-! ### A link that fails -/

/-- A failure with a cause is one of the relocations. -/
def Error.cause? : Error → Option Cause
  | .relocation _ _ cause => some cause
  | _ => none

theorem cause?_of_mergeSymbols {inputs : List Input} {index : Nat} {name : Text}
    {symbols : List Symbol} {known : List Global} {e : Error}
    (h : mergeSymbols inputs index name symbols known = .error e) : e.cause? = none := by
  induction symbols generalizing known with
  | nil => cases h
  | cons s rest ih =>
      rw [mergeSymbols] at h
      split at h
      · exact ih h
      · split at h
        · cases h
          rfl
        · exact ih h

theorem cause?_of_mergeFrom {inputs rest : List Input} {index : Nat} {known : List Global} {e : Error}
    (h : mergeFrom inputs index rest known = .error e) : e.cause? = none := by
  induction rest generalizing index known with
  | nil => cases h
  | cons input rest ih =>
      rw [mergeFrom] at h
      split at h
      · rename_i hmerge
        cases h
        exact cause?_of_mergeSymbols hmerge
      · exact ih h

theorem cause?_of_entryFrom {index : Nat} {kernel : Bool} {found : Option Nat} {inputs : List Input}
    {e : Error} (h : entryFrom index kernel found inputs = .error e) : e.cause? = none := by
  induction inputs generalizing index kernel found with
  | nil =>
      simp only [entryFrom] at h
      split at h <;> cases h
      rfl
  | cons input rest ih =>
      simp only [entryFrom] at h
      split at h
      · cases h
        rfl
      · split at h
        · exact ih h
        · split at h
          · cases h
            rfl
          · exact ih h

theorem cause?_of_layOut {s : Segment} {addr : UInt64} {inputs : List (Nat × Input)} {layout : Layout}
    {log log' : List Event} {e : Error} (h : layOut s addr inputs layout log = .error (log', e)) :
    e.cause? = none := by
  induction inputs generalizing layout log with
  | nil => cases h
  | cons p rest ih =>
      simp only [layOut] at h
      split at h
      · cases h
        rfl
      · split at h
        · cases h
          rfl
        · exact ih h

/-- A step and what follows it fail if the one or the other does. -/
theorem bind_eq_error {ε α β : Type} {x : Except ε α} {f : α → Except ε β} {e : ε}
    (h : x >>= f = .error e) : x = .error e ∨ ∃ a, x = .ok a ∧ f a = .error e := by
  cases x with
  | error e' =>
      cases h
      exact .inl rfl
  | ok a => exact .inr ⟨a, rfl, h⟩

theorem cause?_of_layOutAll {inputs : List Input} {log : List Event} {e : Error}
    (h : layOutAll inputs = .error (log, e)) : e.cause? = none := by
  rw [layOutAll] at h
  rcases bind_eq_error h with htext | ⟨text, -, h⟩
  · exact cause?_of_layOut htext
  rcases bind_eq_error h with hdata | ⟨data, -, h⟩
  · exact cause?_of_layOut hdata
  rcases bind_eq_error h with hktext | ⟨ktext, -, h⟩
  · exact cause?_of_layOut hktext
  rcases bind_eq_error h with hkdata | ⟨kdata, -, h⟩
  · exact cause?_of_layOut hkdata
  · cases h

theorem relocate_of_relocateAll {scene : Scene} {index : Nat} {input : Input}
    {relocations : List Relocation} {images : PerSegment ByteArray} {log log' : List Event} {e : Error}
    (h : relocateAll scene index input relocations images log = .error (log', e)) :
    ∃ r ∈ relocations, ∃ images, relocate scene index input r images = .error e := by
  induction relocations generalizing images log with
  | nil => cases h
  | cons r rest ih =>
      rw [relocateAll] at h
      split at h
      · rename_i hrelocate
        cases h
        exact ⟨r, List.mem_cons_self, images, hrelocate⟩
      · obtain ⟨failing, hmem, hrest⟩ := ih h
        exact ⟨failing, List.mem_cons_of_mem _ hmem, hrest⟩

theorem relocate_of_relocateInputs {scene : Scene} {index : Nat} {inputs : List Input}
    {images : PerSegment ByteArray} {log log' : List Event} {e : Error}
    (h : relocateInputs scene index inputs images log = .error (log', e)) :
    ∃ n input, inputs[n]? = some input ∧ ∃ r ∈ input.file.relocations, ∃ images,
      relocate scene (index + n) input r images = .error e := by
  induction inputs generalizing index images log with
  | nil => cases h
  | cons input rest ih =>
      rw [relocateInputs] at h
      split at h
      · rename_i hall
        cases h
        exact ⟨0, input, rfl, relocate_of_relocateAll hall⟩
      · obtain ⟨n, failing, hmem, hrest⟩ := ih h
        refine ⟨n + 1, failing, hmem, ?_⟩
        rwa [Nat.add_right_comm] at hrest

/-- A link that fails with a cause fails at a relocation. -/
theorem relocate_of_combine_eq_error {inputs : List Input} {log : List Event} {e : Error}
    (h : combine inputs = .error (log, e)) (hcause : e.cause? ≠ none) :
    ∃ scene index input, inputs[index]? = some input ∧ ∃ r ∈ input.file.relocations, ∃ images,
      relocate scene index input r images = .error e := by
  rw [combine] at h
  split at h
  · cases h
    exact absurd rfl hcause
  · split at h
    · rename_i hmerge
      cases h
      exact absurd (cause?_of_mergeFrom hmerge) hcause
    · rename_i hentry _
      cases h
      exact absurd (cause?_of_entryFrom hentry) hcause
    · rename_i globals entry _ _
      rcases bind_eq_error h with hlaid | ⟨⟨layouts, placed⟩, -, h⟩
      · exact absurd (cause?_of_layOutAll hlaid) hcause
      rcases bind_eq_error h with hrelocate | ⟨⟨images, patched⟩, -, h⟩
      · obtain ⟨n, input, hinput, hfails⟩ := relocate_of_relocateInputs hrelocate
        rw [Nat.zero_add] at hfails
        exact ⟨_, n, input, hinput, hfails⟩
      · simp only at h
        split at h
        · cases h
          exact absurd rfl hcause
        · cases h

theorem cause?_of_mapWord {image : ByteArray} {offset : UInt64} {f : Word → Word} {e : Error}
    (h : mapWord image offset f = .error e) : e.cause? = none := by
  rw [mapWord] at h
  split at h <;> cases h
  rfl

theorem cause?_of_patchSlices {addr offset : UInt64} {slices : List Nat} {image : ByteArray} {e : Error}
    (h : patchSlices addr offset slices image = .error e) : e.cause? = none := by
  induction slices generalizing image with
  | nil => cases h
  | cons n rest ih =>
      rw [patchSlices] at h
      split at h
      · rename_i hword
        cases h
        exact cause?_of_mapWord hword
      · exact ih h

/-- A patch fails for what its target is, never for where the relocation is. -/
theorem cause_of_patch {name label name' label' : Text} {kind : RelocationKind}
    {pc addr offset : UInt64} {image : ByteArray} {cause : Cause}
    (h : patch (.relocation name label) kind pc addr offset image =
      .error (.relocation name' label' cause)) :
    label = label' ∧ name = name' ∧ cause ≠ .position ∧ cause ≠ .undefined := by
  simp only [patch] at h
  split at h
  · cases h
  · split at h
    · cases h
      exact ⟨rfl, rfl, by decide, by decide⟩
    · split at h
      · cases h
        exact ⟨rfl, rfl, by decide, by decide⟩
      · cases cause?_of_mapWord h
  · split at h
    · cases h
      exact ⟨rfl, rfl, by decide, by decide⟩
    · split at h
      · cases h
        exact ⟨rfl, rfl, by decide, by decide⟩
      · cases cause?_of_mapWord h
  · cases cause?_of_mapWord h
  · cases cause?_of_patchSlices h

/-- The bytes of a relocation that is placed are within its section, as the linker counts them. -/
theorem not_lt_of_placed {file : ObjectFile} (hfile : file.WellFormed) {r : Relocation} {s : Segment}
    {patch : Patch} (h : r.Placed (fun s => (file.sections.get s).data) s patch) :
    ¬Bytes.size64 (file.sections.get r.kind.segment).data < r.position + 4 * wordsOf r.kind := by
  have hsize : (Bytes.size64 (file.sections.get s).data).toNat = (file.sections.get s).data.size :=
    UInt64.toNat_ofNat_of_lt' (lt_of_le_of_lt (hfile.size s) (by decide))
  have hwords : (wordsOf r.kind).toNat = patch.words := by
    rw [h.kind, RelocationKind.wordsOf_placedIn]
  have hinside := h.inside
  rw [h.segment_eq, UInt64.lt_iff_toNat_lt, hsize, UInt64.toNat_add, UInt64.toNat_mul, hwords]
  have hbound : (4 : UInt64).toNat * patch.words = 4 * patch.words := rfl
  have hmax := hfile.size s
  simp only [Bytes.lengthMax] at hmax
  omega

/-- A label of an object is found there. -/
theorem symbol?_ne_none {file : ObjectFile} {sym : Symbol} {label : Text} (hsym : sym ∈ file.symbols)
    (hlabel : sym.label = label) : file.symbol? label ≠ none := by
  intro hnone
  have habsent := List.find?_eq_none.1 hnone sym hsym
  simp [hlabel] at habsent

/-- A relocation of a well-formed object lies in its section, and finds a label of the object. -/
theorem cause_of_wellFormed {scene : Scene} {index : Nat} {input : Input}
    (hinput : input.file.WellFormed) {r : Relocation} (hr : r ∈ input.file.relocations)
    {images : PerSegment ByteArray} {name label : Text} {cause : Cause}
    (h : relocate scene index input r images = .error (.relocation name label cause)) :
    r.label = label ∧ input.name = name ∧ cause ≠ .position ∧
      (cause = .undefined → r.scope = .global) := by
  obtain ⟨s, patch, hplaced⟩ := hinput.placed r hr
  simp only [relocate] at h
  split at h
  · rename_i htarget
    cases h
    refine ⟨rfl, rfl, by decide, fun _ => ?_⟩
    rcases hinput.scope r hr with hinternal | hglobal
    · -- the object defines the label, so the target was found
      obtain ⟨sym, hsym, hlabel⟩ := hinput.internal r hr hinternal
      have hscope : r.scope ≠ .global := by
        rw [hinternal]
        decide
      simp only [target?, hscope, if_false, Option.map_map, Option.map_eq_none_iff] at htarget
      exact absurd htarget (symbol?_ne_none hsym hlabel)
    · exact hglobal
  · split at h
    · rename_i houtside
      exact absurd houtside (not_lt_of_placed hinput hplaced)
    · split at h
      · rename_i hpatch
        cases h
        obtain ⟨hlabel, hname, hposition, hundefined⟩ := cause_of_patch hpatch
        exact ⟨hlabel, hname, hposition, fun hcause => absurd hcause hundefined⟩
      · cases h

end Linker

namespace Assembler

/-- Every object that is assembled, on whatever host, is well formed. Hence linking such objects never fails
    because a relocation is outside of its section, nor because a label of its own object is undefined. -/
theorem assemble_linkable :
    (∀ (host : Host) (predefined : Equates) (source : Text) (file : ObjectFile),
      (assemble { host := host, predefined := predefined } source).2 = .ok file → file.WellFormed) ∧
    ∀ inputs : List Linker.Input,
      (∀ input ∈ inputs, ∃ (host : Host) (predefined : Equates) (source : Text),
        (assemble { host := host, predefined := predefined } source).2 = .ok input.file) →
      (∀ scene index images, ∀ input ∈ inputs, ∀ r ∈ input.file.relocations, ∀ name label cause,
        Linker.relocate scene index input r images = .error (.relocation name label cause) →
        cause ≠ .position ∧ (cause = .undefined → r.scope = .global)) ∧
      ∀ name label cause, (Linker.link ⟨inputs⟩).1 = .error (.relocation name label cause) →
        cause ≠ .position ∧ (cause = .undefined → ∃ input ∈ inputs, ∃ r ∈ input.file.relocations,
          input.name = name ∧ r.label = label ∧ r.scope = .global) := by
  refine ⟨fun host predefined source file h => assemble_wellFormed h, ?_⟩
  intro inputs hinputs
  have hwell : ∀ input ∈ inputs, input.file.WellFormed := by
    intro input hinput
    obtain ⟨host, predefined, source, h⟩ := hinputs input hinput
    exact assemble_wellFormed h
  refine ⟨?_, ?_⟩
  · intro scene index images input hinput r hr name label cause h
    obtain ⟨-, -, hcause⟩ := Linker.cause_of_wellFormed (hwell input hinput) hr h
    exact hcause
  · intro name label cause h
    rw [Linker.link] at h
    split at h
    · cases h
    · rename_i log e hcombine
      cases h
      obtain ⟨scene, index, input, hinput, r, hr, images, hfails⟩ :=
        Linker.relocate_of_combine_eq_error hcombine (by simp [Linker.Error.cause?])
      have hmem := List.mem_of_getElem? hinput
      obtain ⟨hlabel, hname, hposition, hundefined⟩ :=
        Linker.cause_of_wellFormed (hwell input hmem) hr hfails
      exact ⟨hposition, fun hcause => ⟨input, hmem, r, hr, hname, hlabel, hundefined hcause⟩⟩

/-- A source with a branch to a label of its own and the address of one that another object defines. -/
def farSource : Text :=
  Text.ofString ".text\n.entry main\n.extern far\nmain: beq %zero, %zero, main\nla %v0, far\n"

/-- How a link of one object fails. -/
def soleFailure? (file : ObjectFile) : Option Linker.Error :=
  match (Linker.link ⟨[⟨[], file⟩]⟩).1 with
  | .error e => some e
  | .ok _ => none

theorem assemble_linkable_farSource : ∃ file : ObjectFile,
    (assemble (Command.assembler []) farSource).2 = .ok file ∧ file.WellFormed ∧
    (Linker.link ⟨[⟨[], file⟩]⟩).1 = .error (.relocation [] (Text.ofString "far") .undefined) ∧
    ∃ r ∈ file.relocations, r.label = Text.ofString "far" ∧ r.scope = .global := by
  have hfails : (assemble (Command.assembler []) farSource).2.toOption.map soleFailure? =
      some (some (.relocation [] (Text.ofString "far") .undefined)) := by
    decide +kernel
  cases h : (assemble (Command.assembler []) farSource).2 with
  | error e =>
      rw [h] at hfails
      cases hfails
  | ok file =>
      rw [h] at hfails
      have hlink : (Linker.link ⟨[⟨[], file⟩]⟩).1 =
          .error (.relocation [] (Text.ofString "far") .undefined) := by
        have hfailure := Option.some.inj hfails
        rw [soleFailure?] at hfailure
        split at hfailure
        · rename_i e he
          rw [he, Option.some.inj hfailure]
        · cases hfailure
      have hinputs : ∀ input ∈ [(⟨[], file⟩ : Linker.Input)],
          ∃ (host : Host) (predefined : Equates) (source : Text),
            (assemble { host := host, predefined := predefined } source).2 = .ok input.file := by
        intro input hinput
        rw [List.mem_singleton.1 hinput]
        exact ⟨Command.host, [], farSource, h⟩
      obtain ⟨-, hglobal⟩ := (assemble_linkable.2 _ hinputs).2 _ _ _ hlink
      obtain ⟨input, hinput, r, hr, -, hlabel, hscope⟩ := hglobal rfl
      rw [List.mem_singleton.1 hinput] at hr
      exact ⟨file, rfl, assemble_linkable.1 Command.host [] farSource file h, hlink, r, hr, hlabel, hscope⟩

end Assembler

end VectorRisc
