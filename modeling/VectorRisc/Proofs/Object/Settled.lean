/-
Module: VectorRisc.Proofs.Object.Settled
Layer: Proofs
Purpose: Objects on their way through files. Writing an object and reading it back writes down the sizes of
  its sections; linking does not depend on whether they are written down, and an executable that linking
  gives has them written down already, so that it is read back as it was written.
Imports: Mathlib.Tactic, VectorRisc.Proofs.Object.Linkable, VectorRisc.Proofs.Object.RoundTrip
Trusted boundary: none
Main exports: ObjectFile.stored, Linker.Input.settled, Linker.mapM_stored, Linker.link_settled,
  Linker.settled_of_link, Linker.stored_of_link
Open obligations: none
-/
import Mathlib.Tactic
import VectorRisc.Proofs.Object.Linkable
import VectorRisc.Proofs.Object.RoundTrip

namespace VectorRisc

/-- Writing down the size of a section does not change it. -/
theorem Section.size_settled (c : Section) : c.settled.size = c.size := by
  have hleast : ¬c.size < Bytes.size64 c.data := by
    rw [Section.size]
    split
    · exact UInt64.lt_irrefl _
    · assumption
  rw [Section.size, Section.settled, if_neg hleast]

/-- What is read back after the object has been written. -/
def ObjectFile.stored (file : ObjectFile) : Except ObjectFile.Error ObjectFile := do
  let bytes ← file.encode
  ObjectFile.decode bytes

theorem ObjectFile.Encodable.stored_eq {file : ObjectFile} (h : file.Encodable) :
    file.stored = .ok file.settled := by
  obtain ⟨bytes, hencode, -, hdecode⟩ := ObjectFile.decode_encode h
  exact bind_eq_ok.2 ⟨bytes, hencode, hdecode⟩

namespace Linker

/-! ### Inputs with their sizes written down -/

/-- The input with the size of each section written down. -/
def Input.settled (input : Input) : Input :=
  { input with
    file := { input.file with sections := PerSegment.ofFn fun s => (input.file.sections.get s).settled } }

@[simp] theorem Input.get_settled (input : Input) (s : Segment) :
    input.settled.file.sections.get s = (input.file.sections.get s).settled :=
  PerSegment.get_ofFn _ s

/-- The input with what is read back after its object has been written. -/
def Input.stored (input : Input) : Except ObjectFile.Error Input := do
  let file ← input.file.stored
  return { input with file := file }

/-- A relocatable object is read back with the sizes of its sections written down. -/
theorem Input.stored_eq {input : Input} (hkind : input.file.kind = .relocatable)
    (h : input.file.Encodable) : input.stored = .ok input.settled := by
  rw [Input.stored, h.stored_eq, ObjectFile.settled, if_pos hkind, if_pos hkind]
  rfl

theorem mapM_stored {inputs : List Input}
    (h : ∀ input ∈ inputs, input.file.kind = .relocatable ∧ input.file.Encodable) :
    inputs.mapM Input.stored = .ok (inputs.map Input.settled) := by
  induction inputs with
  | nil => rfl
  | cons input rest ih =>
      obtain ⟨⟨hkind, hfits⟩, hrest⟩ := List.forall_mem_cons.1 h
      rw [List.mapM_cons, Input.stored_eq hkind hfits, ih hrest]
      rfl

/-! ### Linking -/

theorem mergeFrom_settled (all inputs : List Input) (index : Nat) (known : List Global) :
    mergeFrom (all.map Input.settled) index (inputs.map Input.settled) known =
      mergeFrom all index inputs known := by
  have hname (i : Nat) : ((all.map Input.settled)[i]?).elim [] Input.name =
      (all[i]?).elim [] Input.name := by
    rw [List.getElem?_map]
    cases all[i]? <;> rfl
  have hsymbols (index : Nat) (name : Text) (symbols : List Symbol) (known : List Global) :
      mergeSymbols (all.map Input.settled) index name symbols known =
        mergeSymbols all index name symbols known := by
    induction symbols generalizing known with
    | nil => rfl
    | cons sym rest ih => simp only [mergeSymbols, hname, ih]
  induction inputs generalizing index known with
  | nil => rfl
  | cons input rest ih =>
      simp only [List.map_cons, mergeFrom, hsymbols, ih]
      rfl

theorem entryFrom_settled (index : Nat) (kernel : Bool) (found : Option Nat) (inputs : List Input) :
    entryFrom index kernel found (inputs.map Input.settled) = entryFrom index kernel found inputs := by
  induction inputs generalizing index kernel found with
  | nil => rfl
  | cons input rest ih =>
      simp only [List.map_cons, entryFrom, ih]
      rfl

theorem order_settled (inputs : List Input) (s : Segment) :
    order (inputs.map Input.settled) s = (order inputs s).map (Prod.map id Input.settled) := by
  simp only [order, List.length_map, List.zip_map_right, List.filter_map, List.map_append]
  rfl

theorem segmentAddr_settled (inputs : List Input) (s : Segment) :
    segmentAddr (inputs.map Input.settled) s = segmentAddr inputs s := by
  have hfind : (inputs.map Input.settled).find? (fun i => i.file.kernelStart) =
      (inputs.find? fun i => i.file.kernelStart).map Input.settled := by
    rw [List.find?_map]
    rfl
  simp only [segmentAddr, hfind]
  by_cases hs : s = .ktext
  · simp only [hs, if_true]
    cases inputs.find? fun i => i.file.kernelStart with
    | none => rfl
    | some input =>
        simp only [Option.map_some, Input.get_settled]
        rfl
  · simp only [hs, if_false]

/-- Sections are laid out by their size, and not by the size that they declare. -/
theorem layOut_settled (s : Segment) (addr : UInt64) (inputs : List (Nat × Input)) (layout : Layout)
    (log : List Event) :
    layOut s addr (inputs.map (Prod.map id Input.settled)) layout log =
      layOut s addr inputs layout log := by
  have happend (image : ByteArray) (offset : Nat) (c : Section) :
      append image offset c.settled = append image offset c := by
    simp only [append, Section.size_settled]
    rfl
  induction inputs generalizing layout log with
  | nil => rfl
  | cons p rest ih =>
      obtain ⟨index, input⟩ := p
      simp only [List.map_cons, Prod.map_apply, layOut, Input.get_settled, Section.size_settled, happend, ih]
      rfl

theorem layOutAll_settled (inputs : List Input) :
    layOutAll (inputs.map Input.settled) = layOutAll inputs := by
  simp only [layOutAll, order_settled, layOut_settled, segmentAddr_settled]

/-- A relocation asks for the bytes of its section, and not for the size that it declares. -/
theorem relocate_settled (inputs : List Input) (globals : List Global) (layouts : PerSegment Layout)
    (index : Nat) (input : Input) (r : Relocation) (images : PerSegment ByteArray) :
    relocate (sceneOf (inputs.map Input.settled) globals layouts) index input.settled r images =
      relocate (sceneOf inputs globals layouts) index input r images := by
  simp only [relocate, target?, sceneOf, segmentAddr_settled, Input.get_settled]
  rfl

theorem relocateInputs_settled (inputs : List Input) (globals : List Global)
    (layouts : PerSegment Layout) (index : Nat) (rest : List Input) (images : PerSegment ByteArray)
    (log : List Event) :
    relocateInputs (sceneOf (inputs.map Input.settled) globals layouts) index (rest.map Input.settled)
        images log =
      relocateInputs (sceneOf inputs globals layouts) index rest images log := by
  have hall (index : Nat) (input : Input) (relocations : List Relocation)
      (images : PerSegment ByteArray) (log : List Event) :
      relocateAll (sceneOf (inputs.map Input.settled) globals layouts) index input.settled relocations
          images log =
        relocateAll (sceneOf inputs globals layouts) index input relocations images log := by
    induction relocations generalizing images log with
    | nil => rfl
    | cons r more ih => simp only [relocateAll, relocate_settled, ih]
  induction rest generalizing index images log with
  | nil => rfl
  | cons input rest ih =>
      simp only [List.map_cons, relocateInputs, hall, ih]
      rfl

/-- Linking depends on the sizes of sections, and not on whether they are written down. -/
theorem link_settled (inputs : List Input) : link ⟨inputs.map Input.settled⟩ = link ⟨inputs⟩ := by
  have hcombine : combine (inputs.map Input.settled) = combine inputs := by
    simp only [combine, List.isEmpty_map, merge, mergeFrom_settled, entryFrom_settled, layOutAll_settled,
      relocateInputs_settled]
    split
    · rfl
    · split
      · rfl
      · rfl
      · rename_i globals entry _ _
        refine bind_congr fun out => bind_congr fun patched => ?_
        rw [List.getElem?_map]
        cases inputs[entry]? with
        | none => rfl
        | some owner =>
            simp only [Option.map_some, sceneOf, segmentAddr_settled, entryAddress, Input.get_settled]
            rfl
  simp only [link, hcombine]

/-! ### The executable -/

/-- An object takes more bytes in a file than each of its sections. -/
theorem size_le_encodedLength (file : ObjectFile) (s : Segment) :
    (file.sections.get s).data.size + 64 ≤ file.encodedLength := by
  have hpart : (ObjectFile.sectionHeader file s, Bytes.toList (file.sections.get s).data) ∈
      file.contents := by
    simp only [ObjectFile.contents]
    split <;> cases s <;> simp [Segment.all]
  have hle : (Bytes.toList (file.sections.get s).data).length ≤
      (file.contents.flatMap (·.2)).length := by
    rw [List.length_flatMap]
    exact List.single_le_sum (fun _ _ => Nat.zero_le _) _ (List.mem_map.2 ⟨_, hpart, rfl⟩)
  rw [Bytes.length_toList] at hle
  rw [ObjectFile.encodedLength, ObjectFile.fileHeaderSize]
  omega

/-- The memory that a segment takes holds its bytes, unless they are near the end of the address space. -/
theorem size64_le_memSizeOf (s : Segment) {image : ByteArray} (h : image.size + 32 ≤ 2 ^ 64) :
    Bytes.size64 image ≤ memSizeOf s image := by
  rw [memSizeOf]
  split
  · exact UInt64.le_refl _
  · have halign : Segment.dataAlign.toNat = 2 ^ 5 := rfl
    have hup := (Bytes.roundUp_bounds halign h).2.1
    rw [UInt64.le_iff_toNat_le, Bytes.toNat_size64 (by omega)]
    exact hup

/-- An executable that fits into a file has the sizes of its sections written down. -/
theorem settled_of_link {inputs : List Input} {exe : ObjectFile} (h : (link ⟨inputs⟩).1 = .ok exe)
    (hlen : exe.encodedLength < 2 ^ 64) : exe.settled = exe := by
  obtain ⟨log, hcombine⟩ := combine_of_link h
  obtain ⟨hkind, hrelocations, hsymbols⟩ := combine_executable hcombine
  obtain ⟨globals, layouts, placed, images, patched, -, -, hrelocated, hexe⟩ := combine_eq_ok hcombine
  have hsection (s : Segment) : (exe.sections.get s).settled = exe.sections.get s := by
    have hinside := size_le_encodedLength exe s
    have hsize : (layouts.get s).image.size = (exe.sections.get s).data.size := by
      rw [hexe, (relocateInputs_chain hrelocated).size_eq s, PerSegment.get_ofFn]
    have hmemory := size64_le_memSizeOf s (by omega : (layouts.get s).image.size + 32 ≤ 2 ^ 64)
    have hsize64 : Bytes.size64 (images.get s) = Bytes.size64 (layouts.get s).image := by
      rw [Bytes.size64, Bytes.size64, hsize, hexe]
    rw [hexe, Section.settled, Section.size]
    simp only [hsize64, if_neg (UInt64.not_lt.2 hmemory)]
  have hsections : (PerSegment.ofFn fun s => (exe.sections.get s).settled) = exe.sections := by
    simp only [PerSegment.ofFn, hsection]
    rfl
  have hnot : ¬exe.kind = .relocatable := by
    rw [hkind]
    decide
  rw [ObjectFile.settled, hsections, if_neg hnot, if_neg hnot, ← hrelocations, ← hsymbols]

/-- An executable that fits into a file is read back as it was written. -/
theorem stored_of_link {inputs : List Input} {exe : ObjectFile} (h : (link ⟨inputs⟩).1 = .ok exe)
    (hlen : exe.encodedLength < 2 ^ 64) : exe.stored = .ok exe := by
  obtain ⟨log, hcombine⟩ := combine_of_link h
  obtain ⟨hkind, hrelocations, hsymbols⟩ := combine_executable hcombine
  have hfits : exe.Encodable := ⟨.inr hkind, by simp [hrelocations], by simp [hsymbols], hlen⟩
  rw [hfits.stored_eq, settled_of_link h hlen]

end Linker

end VectorRisc
