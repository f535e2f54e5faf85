/-
Module: VectorRisc.Proofs.Object.Linked
Layer: Proofs
Purpose: The executable that well-formed objects are linked into. Each relocation of each of them stands,
  in the code of the executable, on the words of its object patched for the address of its label.
Imports: Mathlib.Tactic, VectorRisc.Proofs.Object.Patches
Trusted boundary: none
Main exports: Linker.Job.Standing, Linker.combine_patched
Open obligations: none
-/
import Mathlib.Tactic
import VectorRisc.Proofs.Object.Patches

namespace VectorRisc

namespace Linker

/-! ### The relocations of all inputs -/

/-- The job is a relocation of one of the inputs, counted from a place on. -/
theorem mem_jobsFrom {index : Nat} {inputs : List Input} {j : Job} :
    j ∈ jobsFrom index inputs ↔ ∃ n, j.index = index + n ∧ inputs[n]? = some j.input ∧
      j.relocation ∈ j.input.file.relocations := by
  induction inputs generalizing index with
  | nil => simp [jobsFrom]
  | cons input rest ih =>
      rw [jobsFrom, List.mem_append, ih]
      constructor
      · rintro (hfirst | ⟨n, hindex, hinput, hr⟩)
        · obtain ⟨r, hr, rfl⟩ := List.mem_map.1 hfirst
          exact ⟨0, rfl, rfl, hr⟩
        · exact ⟨n + 1, by omega, hinput, hr⟩
      · rintro ⟨n, hindex, hinput, hr⟩
        cases n with
        | zero =>
            obtain rfl : input = j.input := Option.some.inj hinput
            obtain rfl : j.index = index := hindex
            exact .inl (List.mem_map.2 ⟨j.relocation, hr, rfl⟩)
        | succ n => exact .inr ⟨n, by omega, hinput, hr⟩

/-- Jobs are apart if those of one input are, and those of different inputs. -/
theorem pairwise_jobsFrom {P : Job → Job → Prop} {index : Nat} {inputs : List Input}
    (hsame : ∀ (n : Nat) (input : Input), inputs[n]? = some input →
      input.file.relocations.Pairwise fun a b => P ⟨index + n, input, a⟩ ⟨index + n, input, b⟩)
    (hother : ∀ j ∈ jobsFrom index inputs, ∀ k ∈ jobsFrom index inputs, j.index ≠ k.index → P j k) :
    (jobsFrom index inputs).Pairwise P := by
  induction inputs generalizing index with
  | nil => exact .nil
  | cons input rest ih =>
      rw [jobsFrom]
      refine List.pairwise_append.2 ⟨?_, ih ?_ ?_, ?_⟩
      · rw [List.pairwise_map]
        exact hsame 0 input rfl
      · intro n other hinput
        rw [Nat.add_right_comm]
        exact hsame (n + 1) other hinput
      · intro j hj k hk hne
        refine hother j ?_ k ?_ hne
        · rw [jobsFrom]
          exact List.mem_append_right _ hj
        · rw [jobsFrom]
          exact List.mem_append_right _ hk
      · intro j hj k hk
        obtain ⟨r, -, rfl⟩ := List.mem_map.1 hj
        obtain ⟨n, hindex, -, -⟩ := mem_jobsFrom.1 hk
        refine hother _ ?_ k ?_ ?_
        · rw [jobsFrom]
          exact List.mem_append_left _ hj
        · rw [jobsFrom]
          exact List.mem_append_right _ hk
        · rw [hindex]
          exact (by omega : index ≠ index + 1 + n)

/-! ### Relocations in the layout -/

/-- A relocation of an input in code that is laid out. -/
structure Job.Standing (inputs : List Input) (layouts : PerSegment Layout) (j : Job) (what : Patch) :
    Prop where
  input : inputs[j.index]? = some j.input
  relocation : j.relocation ∈ j.input.file.relocations
  placed : j.relocation.Placed (fun s => (j.input.file.sections.get s).data) j.segment what
  spread : Spread j.segment j.segment.base (order inputs j.segment) (layouts.get j.segment)

namespace Job.Standing

variable {inputs : List Input} {layouts : PerSegment Layout} {j : Job} {what : Patch}

theorem mem_order (h : j.Standing inputs layouts what) : (j.index, j.input) ∈ order inputs j.segment :=
  Linker.mem_order.2 h.input

/-- The relocation lies in the section of its input. -/
theorem inside (h : j.Standing inputs layouts what) :
    j.relocation.position.toNat + 4 * what.words ≤ (j.input.bytes j.segment).size := h.placed.inside

/-- The section of the input lies in the image. -/
theorem section_inside (h : j.Standing inputs layouts what) :
    (layouts.get j.segment).offsetOf j.segment.base j.index + (j.input.bytes j.segment).size ≤
      (layouts.get j.segment).image.size :=
  h.spread.inside (j.index, j.input) h.mem_order

/-- The place of the relocation in the image. -/
theorem offset_eq (h : j.Standing inputs layouts what) (globals : List Global)
    (haddr : segmentAddr inputs j.segment = j.segment.base) :
    j.offset (sceneOf inputs globals layouts) =
      (layouts.get j.segment).offsetOf j.segment.base j.index + j.relocation.position.toNat := by
  have hsection := h.section_inside
  have hfits := h.spread.fits
  have hinside := h.inside
  have hsum : j.pc (sceneOf inputs globals layouts) - (sceneOf inputs globals layouts).addr j.segment =
      ((layouts.get j.segment).baseOf j.index - j.segment.base) + j.relocation.position := by
    simp only [Job.pc, sceneOf, haddr]
    rw [UInt64.sub_eq_add_neg, UInt64.sub_eq_add_neg]
    ac_rfl
  rw [Job.offset, hsum, UInt64.toNat_add]
  simp only [Layout.offsetOf] at hsection ⊢
  omega

theorem fits (h : j.Standing inputs layouts what) :
    (layouts.get j.segment).offsetOf j.segment.base j.index + j.relocation.position.toNat +
      4 * what.words ≤ (layouts.get j.segment).image.size := by
  have hsection := h.section_inside
  have hinside := h.inside
  omega

theorem words_eq (h : j.Standing inputs layouts what) : j.words = what.words := by
  rw [Job.words, h.placed.kind, RelocationKind.wordsOf_placedIn]

/-- What stands in the layout can be patched. -/
theorem sound (h : j.Standing inputs layouts what) {globals : List Global}
    (haddr : segmentAddr inputs j.segment = j.segment.base) :
    j.Sound (sceneOf inputs globals layouts) what := by
  refine ⟨h.placed.patch?_eq, h.words_eq, ?_⟩
  have himage := h.spread.fits
  have hfits := h.fits
  rw [h.offset_eq globals haddr]
  omega

/-- Relocations of different inputs stand in different sections. -/
theorem apart_of_ne {k : Job} {other : Patch} (h : j.Standing inputs layouts what)
    (hk : k.Standing inputs layouts other) (hne : j.index ≠ k.index) {globals : List Global}
    (haddr : ∀ s, segmentAddr inputs s = s.base) : j.Apart (sceneOf inputs globals layouts) k := by
  intro hsegment
  have hkspread := hk.spread
  have hkinside := hk.inside
  have hkorder := hk.mem_order
  have hkoffset := hk.offset_eq globals (haddr _)
  have hinside := h.inside
  rw [← hsegment] at hkspread hkinside hkorder hkoffset
  rw [h.offset_eq globals (haddr _), hkoffset, h.words_eq, hk.words_eq]
  rcases h.spread.apart _ h.mem_order _ hkorder hne with hbefore | hafter
  · exact .inl (by simp only at hbefore; omega)
  · exact .inr (by simp only at hafter; omega)

/-- Relocations of one input that are apart there are apart in the layout. -/
theorem apart_of_eq {k : Job} {other : Patch} (h : j.Standing inputs layouts what)
    (hk : k.Standing inputs layouts other) (hsame : j.index = k.index)
    (hapart : j.relocation.Apart k.relocation) {globals : List Global}
    (haddr : ∀ s, segmentAddr inputs s = s.base) : j.Apart (sceneOf inputs globals layouts) k := by
  intro hsegment
  have hkoffset := hk.offset_eq globals (haddr _)
  rw [← hsegment, ← hsame] at hkoffset
  rw [h.offset_eq globals (haddr _), hkoffset, h.words_eq, hk.words_eq]
  have hspots := hapart hsegment
  rw [h.placed.stop_eq, hk.placed.stop_eq] at hspots
  omega

end Job.Standing

/-! ### The executable -/

/-- The executable of well-formed objects. Its code starts at the fixed addresses and stays within the
    address space, and every relocation stands there on its words, patched for the address of its label. -/
theorem combine_patched {inputs : List Input} (hwell : ∀ input ∈ inputs, input.file.WellFormed)
    {exe : ObjectFile} {log : List Event} (h : combine inputs = .ok (exe, log)) :
    ∃ globals layouts placed, merge inputs = .ok globals ∧ layOutAll inputs = .ok (layouts, placed) ∧
      (∀ s : Segment, s.isCode = true → (exe.sections.get s).addr = s.base ∧
        s.base.toNat + (exe.sections.get s).data.size < 2 ^ 64 ∧
        (exe.sections.get s).memSize = Bytes.size64 (exe.sections.get s).data) ∧
      ∀ (j : Job) (what : Patch), j.Standing inputs layouts what →
        let scene := sceneOf inputs globals layouts
        j.pc scene = j.segment.base + UInt64.ofNat (j.offset scene) ∧
        j.offset scene + 4 * what.words ≤ (exe.sections.get j.segment).data.size ∧
        ∃ addr, target? scene j.index j.input.file j.relocation = some addr ∧
          what.Reaches (j.pc scene) addr ∧
          Bytes.wordsAt (exe.sections.get j.segment).data (j.offset scene) what.words =
            what.apply (j.pc scene) addr
              (Bytes.wordsAt (j.input.bytes j.segment) j.relocation.position.toNat what.words) := by
  obtain ⟨globals, layouts, placed, images, patched, hmerge, hlaid, hrelocated, hexe⟩ := combine_eq_ok h
  have haddr := segmentAddr_eq hwell
  have hchain := relocateInputs_chain hrelocated
  have hstanding : ∀ j ∈ jobsFrom 0 inputs, ∃ what, j.Standing inputs layouts what := by
    intro j hj
    obtain ⟨n, hindex, hinput, hr⟩ := mem_jobsFrom.1 hj
    rw [Nat.zero_add] at hindex
    subst hindex
    obtain ⟨s, what, hplaced⟩ := (hwell j.input (List.mem_of_getElem? hinput)).placed j.relocation hr
    have hs : j.segment = s := hplaced.segment_eq
    subst hs
    exact ⟨what, hinput, hr, hplaced, layOutAll_spread hwell hlaid hplaced.code⟩
  have hsound : ∀ j ∈ jobsFrom 0 inputs, ∃ what, j.Sound (sceneOf inputs globals layouts) what := by
    intro j hj
    obtain ⟨what, hj⟩ := hstanding j hj
    exact ⟨what, hj.sound (haddr _)⟩
  have hapart : (jobsFrom 0 inputs).Pairwise (Job.Apart (sceneOf inputs globals layouts)) := by
    refine pairwise_jobsFrom ?_ ?_
    · intro n input hinput
      have hmem (r : Relocation) (hr : r ∈ input.file.relocations) :
          (⟨0 + n, input, r⟩ : Job) ∈ jobsFrom 0 inputs := mem_jobsFrom.2 ⟨n, rfl, hinput, hr⟩
      refine (hwell input (List.mem_of_getElem? hinput)).apart.imp_of_mem ?_
      intro a b ha hb hab
      obtain ⟨what, hja⟩ := hstanding _ (hmem a ha)
      obtain ⟨other, hjb⟩ := hstanding _ (hmem b hb)
      exact hja.apart_of_eq hjb rfl hab haddr
    · intro j hj k hk hne
      obtain ⟨what, hj⟩ := hstanding j hj
      obtain ⟨other, hk⟩ := hstanding k hk
      exact hj.apart_of_ne hk hne haddr
  refine ⟨globals, layouts, placed, hmerge, hlaid, ?_, ?_⟩
  · intro s hcode
    have hspread := layOutAll_spread hwell hlaid hcode
    have hsize := (hchain.frame hsound s).1
    rw [PerSegment.get_ofFn] at hsize
    have hfits := hspread.fits
    rw [hexe s]
    refine ⟨haddr s, ?_, ?_⟩
    · simp only [hsize]
      exact hfits
    · simp only [memSizeOf, hcode, if_true, Bytes.size64, hsize]
  · intro j what hj scene
    have hmem : j ∈ jobsFrom 0 inputs :=
      mem_jobsFrom.2 ⟨j.index, (Nat.zero_add _).symm, hj.input, hj.relocation⟩
    have hsize := (hchain.frame hsound j.segment).1
    rw [PerSegment.get_ofFn] at hsize
    obtain ⟨addr, htarget, hreaches, hwords⟩ := hchain.words_eq hsound hapart hmem (hj.sound (haddr _))
    refine ⟨?_, ?_, addr, htarget, hreaches, ?_⟩
    · have haddr' : scene.addr j.segment = j.segment.base := haddr j.segment
      rw [Job.offset, haddr', UInt64.ofNat_toNat, UInt64.add_comm, UInt64.sub_add_cancel]
    · have hfits := hj.fits
      rw [hexe]
      simp only [hsize]
      rw [hj.offset_eq globals (haddr _)]
      exact hfits
    · rw [hexe]
      simp only
      rw [hwords, PerSegment.get_ofFn, hj.offset_eq globals (haddr _)]
      rw [hj.spread.whole _ hj.mem_order _ _ hj.inside]

end Linker

end VectorRisc
