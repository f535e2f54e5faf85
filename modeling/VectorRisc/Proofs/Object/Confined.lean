/-
Module: VectorRisc.Proofs.Object.Confined
Layer: Proofs
Purpose: What linking writes. A relocation that is applied changes its own words alone; they belong to the
  data of the object that carries it exactly if its end does not wrap around the address space. Linking
  leaves an image only at a relocation whose end wraps, or at a section that takes the image out of bounds.
Imports: Mathlib.Tactic, VectorRisc.Proofs.Object.Linkable, VectorRisc.Proofs.Object.RoundTrip
Trusted boundary: none
Main exports: Linker.relocate_frame, Linker.Reached, Linker.Belongs, Linker.Reached.belongs_iff,
  Linker.reached_of_combine, Linker.link_confined, Linker.link_not_always_confined
Open obligations: none
-/
import Mathlib.Tactic
import VectorRisc.Proofs.Object.Linkable
import VectorRisc.Proofs.Object.RoundTrip

namespace VectorRisc

/-- An object that fits the format and is settled can be read from a file. -/
theorem ObjectFile.Encodable.exists_decode {file : ObjectFile} (h : file.Encodable)
    (hsettled : file.settled = file) :
    ∃ bytes : List UInt8, bytes.length < 2 ^ 64 ∧ ObjectFile.decode bytes = .ok file := by
  obtain ⟨bytes, -, hlen, hdecode⟩ := ObjectFile.decode_encode h
  rw [hsettled] at hdecode
  exact ⟨bytes, hlen ▸ h.length, hdecode⟩

namespace Linker

/-! ### The words of one relocation -/

theorem inside_of_mapWord {image after : ByteArray} {offset : UInt64} {f : Word → Word}
    (h : mapWord image offset f = .ok after) : offset.toNat + 4 ≤ image.size := by
  rw [mapWord, wordAt?] at h
  by_contra hout
  rw [if_neg hout] at h
  cases h

theorem inside_of_patchSlices {addr offset : UInt64} {slices : List Nat} {image after : ByteArray}
    (h : patchSlices addr offset slices image = .ok after) :
    ∀ n ∈ slices, (offset + UInt64.ofNat (4 * n)).toNat + 4 ≤ image.size := by
  induction slices generalizing image with
  | nil => simp
  | cons n rest ih =>
      rw [patchSlices] at h
      split at h
      · cases h
      · rename_i next hnext
        have hrest := ih h
        rw [(mapWord_eq_ok hnext).1.size] at hrest
        exact List.forall_mem_cons.2 ⟨inside_of_mapWord hnext, hrest⟩

/-- The words that a patch has changed lie in the image, one after the other. -/
theorem inside_of_patch {fail : Cause → Error} {kind : RelocationKind} {what : Patch}
    (hkind : kind.patch? = some what) {pc addr offset : UInt64} {image after : ByteArray}
    (hsize : image.size < 2 ^ 64) (h : patch fail kind pc addr offset image = .ok after) :
    offset.toNat + 4 * what.words ≤ image.size := by
  simp only [patch, hkind] at h
  cases what with
  | branch =>
      simp only at h
      split at h
      · cases h
      · split at h
        · cases h
        · exact inside_of_mapWord h
  | jump =>
      simp only at h
      split at h
      · cases h
      · split at h
        · cases h
        · exact inside_of_mapWord h
  | slice => exact inside_of_mapWord h
  | address =>
      have hoffset := offset.toNat_lt
      have hwords := inside_of_patchSlices h
      have hfirst := hwords 0 (by simp)
      have hsecond := hwords 1 (by simp)
      have hthird := hwords 2 (by simp)
      have hfourth := hwords 3 (by simp)
      simp only [UInt64.toNat_add, UInt64.toNat_ofNat'] at hfirst hsecond hthird hfourth
      rw [Patch.words]
      omega

/-- A relocation that is applied changes no byte but those of its words. -/
theorem relocate_frame {scene : Scene} {j : Job} {images after : PerSegment ByteArray} {event : Event}
    (hsize : (images.get j.segment).size < 2 ^ 64)
    (h : relocate scene j.index j.input j.relocation images = .ok (after, event)) {s : Segment} {o : Nat}
    (hout : s = j.segment → o < j.offset scene ∨ j.offset scene + 4 * j.words ≤ o) :
    Bytes.byteAt (after.get s) o = Bytes.byteAt (images.get s) o := by
  obtain ⟨-, image, addr, rfl, hpatch⟩ := relocate_patches h
  rw [PerSegment.get_set]
  split
  · rename_i hs
    subst hs
    have hrange := hout rfl
    have hfits : ∀ what, j.relocation.kind.patch? = some what →
        (j.pc scene - scene.addr j.segment).toNat + 4 * what.words < 2 ^ 64 := by
      intro what hwhat
      have hinside := inside_of_patch hwhat hsize hpatch
      omega
    refine Bytes.byteAt_eq_of_bits fun b hb => ?_
    rcases patch_bits hfits hpatch (8 * o + b) with hsame | ⟨what, hwhat, i, hi, hfirst, hlast⟩
    · exact hsame
    · have hwords : j.words = what.words := toNat_wordsOf hwhat
      rw [Job.offset] at hrange
      omega
  · rfl

/-! ### Where relocations stand -/

/-- Linking comes to a relocation: the inputs are laid out, and the relocations before it are applied. -/
structure Reached (inputs : List Input) (globals : List Global) (layouts : PerSegment Layout) (j : Job)
    (images : PerSegment ByteArray) : Prop where
  merged : merge inputs = .ok globals
  laid : ∃ placed, layOutAll inputs = .ok (layouts, placed)
  before : ∃ done rest, jobsFrom 0 inputs = done ++ j :: rest ∧
    Chain (sceneOf inputs globals layouts) done (PerSegment.ofFn fun s => (layouts.get s).image) images

/-- The place in the image of a segment belongs to the data of one input, and to no other input. -/
def Belongs (inputs : List Input) (layouts : PerSegment Layout) (s : Segment) (index : Nat)
    (input : Input) (o : Nat) : Prop :=
  let start := (layouts.get s).offsetOf (segmentAddr inputs s)
  (start index ≤ o ∧ o < start index + (input.bytes s).size) ∧
    ∀ k other, inputs[k]? = some other → k ≠ index → ¬(start k ≤ o ∧ o < start k + other.extent s)

namespace Reached

variable {inputs : List Input} {globals : List Global} {layouts : PerSegment Layout} {j : Job}
  {images : PerSegment ByteArray}

theorem mem (h : Reached inputs globals layouts j images) :
    inputs[j.index]? = some j.input ∧ j.relocation ∈ j.input.file.relocations := by
  obtain ⟨done, rest, hjobs, -⟩ := h.before
  have hmem : j ∈ jobsFrom 0 inputs := by simp [hjobs]
  obtain ⟨n, hindex, hinput, hr⟩ := mem_jobsFrom.1 hmem
  rw [Nat.zero_add] at hindex
  exact ⟨hindex ▸ hinput, hr⟩

/-- The images are those of the layout, up to their bytes. -/
theorem sized (h : Reached inputs globals layouts j images) : Sized layouts images := by
  obtain ⟨done, rest, -, hchain⟩ := h.before
  intro s
  rw [hchain.size_eq s, PerSegment.get_ofFn]

/-- The images of a layout can be allocated. -/
theorem short (h : Reached inputs globals layouts j images)
    (hsize : ∀ input ∈ inputs, ∀ s, (input.bytes s).size < 2 ^ 64) (s : Segment) :
    (layouts.get s).image.size ≤ Bytes.lengthMax := by
  obtain ⟨placed, hlaid⟩ := h.laid
  obtain ⟨before, after, hout⟩ := layOutAll_eq_ok hlaid s
  exact layOut_short (order_size hsize s) (Nat.zero_le _) hout

theorem tiling (h : Reached inputs globals layouts j images)
    (hsize : ∀ input ∈ inputs, ∀ s, (input.bytes s).size < 2 ^ 64) (s : Segment) :
    Tiling s (segmentAddr inputs s) (order inputs s) (layouts.get s) := by
  have hfits : (layouts.get s).image.size + s.align.toNat ≤ 2 ^ 64 := by
    have hshort := h.short hsize s
    have halign : s.align.toNat ≤ 32 := by cases s <;> decide
    simp only [Bytes.lengthMax] at hshort
    omega
  obtain ⟨placed, hlaid⟩ := h.laid
  obtain ⟨before, after, hout⟩ := layOutAll_eq_ok hlaid s
  have htiling : Tiling s (segmentAddr inputs s) ([] ++ order inputs s) (layouts.get s) :=
    layOut_tiling (Tiling.nil s _) (nodup_order inputs s) hfits hout
  exact htiling

end Reached

/-- Sections that tile an image have no common place. -/
theorem Tiling.apart {s : Segment} {addr : UInt64} {inputs : List Input} {layout : Layout}
    (h : Tiling s addr (order inputs s) layout) {i k : Nat} {a b : Input} (ha : inputs[i]? = some a)
    (hb : inputs[k]? = some b) (hne : i ≠ k) :
    layout.offsetOf addr i + a.extent s ≤ layout.offsetOf addr k ∨
      layout.offsetOf addr k + b.extent s ≤ layout.offsetOf addr i := by
  let Apart (p q : Nat × Input) : Prop :=
    layout.offsetOf addr p.1 + p.2.extent s ≤ layout.offsetOf addr q.1 ∨
      layout.offsetOf addr q.1 + q.2.extent s ≤ layout.offsetOf addr p.1
  have hsymm : Std.Symm Apart := ⟨fun _ _ => Or.symm⟩
  have hapart : (order inputs s).Pairwise Apart := h.ordered.imp .inl
  have hplaces : (i, a) ≠ (k, b) := fun heq => hne (congrArg Prod.fst heq)
  have hpair : Apart (i, a) (k, b) := hapart.forall (mem_order.2 ha) (mem_order.2 hb) hplaces
  exact hpair

/-- The words of a relocation that passes its check belong to the data of its object exactly if its end
    does not wrap. -/
theorem Reached.belongs_iff {inputs : List Input} {globals : List Global} {layouts : PerSegment Layout}
    {j : Job} {images : PerSegment ByteArray} (h : Reached inputs globals layouts j images)
    (hsize : ∀ input ∈ inputs, ∀ s, (input.bytes s).size < 2 ^ 64) (hchecked : j.Checked) :
    (∀ o, j.offset (sceneOf inputs globals layouts) ≤ o →
        o < j.offset (sceneOf inputs globals layouts) + 4 * j.words →
        Belongs inputs layouts j.segment j.index j.input o) ↔
      j.relocation.stop < 2 ^ 64 := by
  have hinput := h.mem.1
  obtain ⟨placed, hlaid⟩ := h.laid
  have htiling := h.tiling hsize j.segment
  have hshort := h.short hsize j.segment
  have hdata := data_inside hlaid hinput j.segment
  simp only [Bytes.lengthMax] at hshort
  have hwords : 0 < j.words := by
    rw [Job.words, wordsOf]
    split <;> decide
  have hposition := j.relocation.position.toNat_lt
  have hoffset : j.offset (sceneOf inputs globals layouts) =
      ((layouts.get j.segment).offsetOf (segmentAddr inputs j.segment) j.index +
        j.relocation.position.toNat) % 2 ^ 64 := by
    rw [Job.offset, Job.pc_sub_addr, UInt64.toNat_add]
    rfl
  have hstop : j.relocation.stop = j.relocation.position.toNat + 4 * j.words := rfl
  rw [hoffset]
  set start := (layouts.get j.segment).offsetOf (segmentAddr inputs j.segment) with hstart
  constructor
  · intro hall
    by_contra hwraps
    by_cases hover : start j.index + j.relocation.position.toNat < 2 ^ 64
    · have hlast := hall (start j.index + j.relocation.position.toNat + 4 * j.words - 1)
        (by omega) (by omega)
      have hrange : _ ∧ _ := hlast.1
      simp only [← hstart] at hrange
      omega
    · have hfirst := hall _ le_rfl (by omega)
      have hrange : _ ∧ _ := hfirst.1
      simp only [← hstart] at hrange
      omega
  · intro hend
    have hinside := (Job.checked_iff (by omega) hend).1 hchecked
    intro o hfirst hlast
    have hown : start j.index ≤ o ∧ o < start j.index + (j.input.bytes j.segment).size := by omega
    refine ⟨hown, fun k other hother hne hin => ?_⟩
    have hextent := Input.size_bytes_le (by omega : (j.input.bytes j.segment).size < 2 ^ 64)
    have hapart := htiling.apart hinput hother hne.symm
    simp only [← hstart] at hapart hin
    omega

/-! ### Where an image is left -/

theorem mergeFrom_ne {all inputs : List Input} {index : Nat} {known : List Global} :
    mergeFrom all index inputs known ≠ .error .outOfBounds := by
  have hsymbols {index : Nat} {name : Text} {symbols : List Symbol} {known : List Global} :
      mergeSymbols all index name symbols known ≠ .error .outOfBounds := by
    induction symbols generalizing known with
    | nil => simp [mergeSymbols]
    | cons sym rest ih =>
        rw [mergeSymbols]
        split
        · exact ih
        · split
          · simp
          · exact ih
  induction inputs generalizing index known with
  | nil => simp [mergeFrom]
  | cons input rest ih =>
      rw [mergeFrom]
      split
      · rename_i e hmerge
        rintro ⟨⟩
        exact hsymbols hmerge
      · exact ih

theorem entryFrom_ne {index : Nat} {kernel : Bool} {found : Option Nat} {inputs : List Input} :
    entryFrom index kernel found inputs ≠ .error .outOfBounds := by
  induction inputs generalizing index kernel found with
  | nil => cases found <;> simp [entryFrom]
  | cons input rest ih =>
      simp only [entryFrom]
      split
      · simp
      · split
        · exact ih
        · split
          · simp
          · exact ih

/-- Sections of which each ends within the greatest image do not take it out of bounds. -/
theorem layOutAll_ne {inputs : List Input}
    (hsize : ∀ input ∈ inputs, ∀ s, (input.bytes s).size < 2 ^ 64) (hbounds : InBounds inputs)
    {log : List Event} : layOutAll inputs ≠ .error (log, .outOfBounds) := by
  intro h
  have hsegment (s : Segment) {before after : List Event} :
      layOut s (segmentAddr inputs s) (order inputs s) {} before ≠ .error (after, .outOfBounds) :=
    layOut_ne (order_size hsize s) (nodup_order inputs s)
      ((forall_order_iff (P := fun input base =>
        (base - segmentAddr inputs s).toNat + input.extent s ≤ Bytes.lengthMax)).2 (hbounds s))
  rw [layOutAll] at h
  rcases bind_eq_error h with htext | ⟨text, -, h⟩
  · exact hsegment .text htext
  rcases bind_eq_error h with hdata | ⟨data, -, h⟩
  · exact hsegment .data hdata
  rcases bind_eq_error h with hktext | ⟨ktext, -, h⟩
  · exact hsegment .ktext hktext
  rcases bind_eq_error h with hkdata | ⟨kdata, -, h⟩
  · exact hsegment .kdata hkdata
  · cases h

/-- Relocations of an input fail at one of them, after those before it. -/
theorem relocateAll_eq_error {scene : Scene} {index : Nat} {input : Input}
    {relocations : List Relocation} {images : PerSegment ByteArray} {log log' : List Event} {e : Error}
    (h : relocateAll scene index input relocations images log = .error (log', e)) :
    ∃ (done : List Job) (j : Job) (rest : List Job) (next : PerSegment ByteArray),
      relocations.map (Job.mk index input) = done ++ j :: rest ∧
      Chain scene done images next ∧
      relocate scene j.index j.input j.relocation next = .error e := by
  induction relocations generalizing images log with
  | nil => cases h
  | cons r rest ih =>
      rw [relocateAll] at h
      split at h
      · rename_i hrelocate
        cases h
        exact ⟨[], ⟨index, input, r⟩, rest.map (Job.mk index input), images, rfl, .nil images, hrelocate⟩
      · rename_i next event hnext
        obtain ⟨done, j, more, last, hjobs, hchain, hj⟩ := ih h
        refine ⟨⟨index, input, r⟩ :: done, j, more, last, ?_, ?_, hj⟩
        · rw [List.map_cons, hjobs, List.cons_append]
        · exact Chain.cons (j := ⟨index, input, r⟩) hnext hchain

/-- Relocations of inputs fail at one of them, after those before it. -/
theorem relocateInputs_eq_error {scene : Scene} {index : Nat} {inputs : List Input}
    {images : PerSegment ByteArray} {log log' : List Event} {e : Error}
    (h : relocateInputs scene index inputs images log = .error (log', e)) :
    ∃ (done : List Job) (j : Job) (rest : List Job) (next : PerSegment ByteArray),
      jobsFrom index inputs = done ++ j :: rest ∧ Chain scene done images next ∧
      relocate scene j.index j.input j.relocation next = .error e := by
  induction inputs generalizing index images log with
  | nil => cases h
  | cons input rest ih =>
      rw [relocateInputs] at h
      rw [jobsFrom]
      split at h
      · rename_i hall
        cases h
        obtain ⟨done, j, more, next, hjobs, hchain, hj⟩ := relocateAll_eq_error hall
        exact ⟨done, j, more ++ jobsFrom (index + 1) rest, next, by simp [hjobs], hchain, hj⟩
      · rename_i next log1 hall
        obtain ⟨done, j, more, last, hjobs, hchain, hj⟩ := ih h
        exact ⟨input.file.relocations.map (Job.mk index input) ++ done, j, more, last, by simp [hjobs],
          (relocateAll_chain hall).append hchain, hj⟩

/-- Linking leaves an image at a relocation that it comes to, if sections do not take one out of bounds. -/
theorem reached_of_combine {inputs : List Input} {log : List Event}
    (hsize : ∀ input ∈ inputs, ∀ s, (input.bytes s).size < 2 ^ 64) (hbounds : InBounds inputs)
    (h : combine inputs = .error (log, .outOfBounds)) :
    ∃ globals layouts j images, Reached inputs globals layouts j images ∧
      relocate (sceneOf inputs globals layouts) j.index j.input j.relocation images =
        .error .outOfBounds := by
  rw [combine] at h
  split at h
  · cases h
  · split at h
    · rename_i hmerge
      cases h
      exact absurd hmerge mergeFrom_ne
    · rename_i hentry _
      cases h
      exact absurd hentry entryFrom_ne
    · rename_i globals entry hmerge _
      rcases bind_eq_error h with hlaid | ⟨⟨layouts, placed⟩, hlaid, h⟩
      · exact absurd hlaid (layOutAll_ne hsize hbounds)
      rcases bind_eq_error h with hrelocate | ⟨⟨images, patched⟩, -, h⟩
      · obtain ⟨done, j, rest, next, hjobs, hchain, hj⟩ := relocateInputs_eq_error hrelocate
        exact ⟨globals, layouts, j, next, ⟨hmerge, ⟨placed, hlaid⟩, done, rest, hjobs, hchain⟩, hj⟩
      · simp only at h
        split at h
        · cases h
        · cases h

/-- A relocation that linking comes to, and whose end does not wrap, does not leave the image. -/
theorem Reached.relocate_ne {inputs : List Input} {globals : List Global} {layouts : PerSegment Layout}
    {j : Job} {images : PerSegment ByteArray} (h : Reached inputs globals layouts j images)
    (hsize : (j.input.bytes j.segment).size < 2 ^ 64) (hstop : j.relocation.stop < 2 ^ 64) :
    relocate (sceneOf inputs globals layouts) j.index j.input j.relocation images ≠
      .error .outOfBounds := by
  obtain ⟨placed, hlaid⟩ := h.laid
  refine (relocate_cases fun hchecked => ?_).2
  exact Job.room hlaid h.mem.1 ((Job.checked_iff hsize hstop).1 hchecked) h.sized globals

/-- Linking objects that were read from files is confined, as far as no relocation has an end that wraps
    around the address space and no section takes an image out of bounds. It never leaves the images, and a
    relocation that is applied changes its own words alone, which belong to the data of its object exactly
    if its end does not wrap. -/
theorem link_confined (inputs : List Input)
    (hread : ∀ input ∈ inputs, ∃ bytes : List UInt8, bytes.length < 2 ^ 64 ∧
      ObjectFile.decode bytes = .ok input.file) :
    ((link ⟨inputs⟩).1 = .error .outOfBounds →
      (∃ input ∈ inputs, ∃ r ∈ input.file.relocations, 2 ^ 64 ≤ r.stop) ∨ ¬InBounds inputs) ∧
    ∀ globals layouts j images after event, Reached inputs globals layouts j images →
      let scene := sceneOf inputs globals layouts
      relocate scene j.index j.input j.relocation images = .ok (after, event) →
      (∀ s o, (s = j.segment → o < j.offset scene ∨ j.offset scene + 4 * j.words ≤ o) →
        Bytes.byteAt (after.get s) o = Bytes.byteAt (images.get s) o) ∧
      ((∀ o, j.offset scene ≤ o → o < j.offset scene + 4 * j.words →
        Belongs inputs layouts j.segment j.index j.input o) ↔ j.relocation.stop < 2 ^ 64) := by
  have hsize : ∀ input ∈ inputs, ∀ s, (input.bytes s).size < 2 ^ 64 := by
    intro input hinput s
    obtain ⟨bytes, hlen, hdecode⟩ := hread input hinput
    exact Nat.lt_of_le_of_lt ((ObjectFile.readFrom_of_decode hlen hdecode).sections s).1 hlen
  constructor
  · intro h
    by_cases hbounds : InBounds inputs
    · left
      obtain ⟨log, hcombine⟩ : ∃ log, combine inputs = .error (log, .outOfBounds) := by
        rw [link] at h
        split at h
        · cases h
        · rename_i log e hcombine
          cases h
          exact ⟨log, hcombine⟩
      obtain ⟨globals, layouts, j, images, hreached, hfails⟩ := reached_of_combine hsize hbounds hcombine
      obtain ⟨hinput, hr⟩ := hreached.mem
      have hmem := List.mem_of_getElem? hinput
      refine ⟨j.input, hmem, j.relocation, hr, ?_⟩
      by_contra hstop
      exact hreached.relocate_ne (hsize j.input hmem j.segment) (Nat.not_le.1 hstop) hfails
    · exact .inr hbounds
  · intro globals layouts j images after event hreached scene happlied
    have himage : (images.get j.segment).size < 2 ^ 64 := by
      rw [hreached.sized j.segment]
      exact Nat.lt_of_le_of_lt (hreached.short hsize j.segment) (by decide)
    exact ⟨fun s o hout => relocate_frame himage happlied hout,
      hreached.belongs_iff hsize (relocate_patches happlied).1⟩

/-- An object with a word of code. -/
def wordObject : ObjectFile :=
  { ObjectFile.empty .relocatable with
    sections := { (ObjectFile.empty .relocatable).sections with
      text := { addr := Segment.textBase, data := Bytes.ofList [0x02, 0, 0, 0], memSize := 4 } } }

/-- The object with a jump that stands at a position and goes to its own start. -/
def jumpAt (position : UInt64) : ObjectFile :=
  { wordObject with
    entry := Segment.textBase
    relocations := [⟨position, [ascii 't'], ⟨1⟩, .internal⟩]
    symbols := [⟨[ascii 't'], ⟨1⟩, .internal, 0⟩] }

theorem exists_decode_jumpAt {position : UInt64} (hlen : (jumpAt position).encodedLength = 454) :
    ∃ bytes : List UInt8, bytes.length < 2 ^ 64 ∧ ObjectFile.decode bytes = .ok (jumpAt position) := by
  refine ObjectFile.Encodable.exists_decode ⟨.inl rfl, ?_, ?_, by rw [hlen]; decide⟩ rfl
  · intro r hr
    rw [List.mem_singleton.1 hr]
    exact ⟨of_decide_eq_true rfl, of_decide_eq_true rfl, of_decide_eq_true rfl⟩
  · intro s hs
    rw [List.mem_singleton.1 hs]
    exact ⟨by decide, by decide, by decide⟩

/-- The jump of the second object is to stand four bytes before it, in the word of the first one. -/
def overwritten : List Input := [⟨[ascii 'a'], wordObject⟩, ⟨[ascii 'b'], jumpAt (0 - 4)⟩]

theorem link_confined_overwritten :
    (link ⟨overwritten⟩).1.toOption.map (fun exe => Bytes.toList (exe.sections.get .text).data) =
      some [0x82, 0, 0, 8, 2, 0, 0, 0] ∧
    ∃ globals layouts j images, Reached overwritten globals layouts j images ∧ ¬∀ o,
      j.offset (sceneOf overwritten globals layouts) ≤ o →
      o < j.offset (sceneOf overwritten globals layouts) + 4 * j.words →
      Belongs overwritten layouts j.segment j.index j.input o := by
  have hlink : (link ⟨overwritten⟩).1.toOption.map (fun exe =>
      Bytes.toList (exe.sections.get .text).data) = some [0x82, 0, 0, 8, 2, 0, 0, 0] := by
    decide +kernel
  have hread : ∀ input ∈ overwritten, ∃ bytes : List UInt8, bytes.length < 2 ^ 64 ∧
      ObjectFile.decode bytes = .ok input.file := by
    intro input hinput
    rcases List.mem_cons.1 hinput with rfl | hlast
    · have hlen : wordObject.encodedLength < 2 ^ 64 := by decide
      exact ObjectFile.Encodable.exists_decode ⟨.inl rfl, by simp [wordObject, ObjectFile.empty],
        by simp [wordObject, ObjectFile.empty], hlen⟩ rfl
    · rw [List.mem_singleton.1 hlast]
      exact exists_decode_jumpAt (by decide)
  refine ⟨hlink, ?_⟩
  cases hout : (link ⟨overwritten⟩).1 with
  | error e =>
      rw [hout] at hlink
      cases hlink
  | ok exe =>
      obtain ⟨log, hcombine⟩ := combine_of_link hout
      obtain ⟨globals, layouts, placed, images, patched, hmerge, hlaid, hrelocated, -⟩ :=
        combine_eq_ok hcombine
      have hchain := relocateInputs_chain hrelocated
      have hjobs : jobsFrom 0 overwritten =
          [⟨1, ⟨[ascii 'b'], jumpAt (0 - 4)⟩, ⟨0 - 4, [ascii 't'], ⟨1⟩, .internal⟩⟩] := rfl
      rw [hjobs] at hchain
      cases hchain with
      | cons head tail =>
          have hreached : Reached overwritten globals layouts _ _ :=
            ⟨hmerge, ⟨placed, hlaid⟩, [], [], hjobs, .nil _⟩
          have hwrites := (link_confined overwritten hread).2 globals layouts _ _ _ _ hreached head
          refine ⟨globals, layouts, _, _, hreached, fun hall => ?_⟩
          have hstop := hwrites.2.1 hall
          revert hstop
          decide

/-- There are objects that can be read and for which linking leaves an image. -/
theorem link_not_always_confined :
    ¬∀ inputs : List Input, (∀ input ∈ inputs, input.file.kind = .relocatable ∧
        ∃ bytes : List UInt8, bytes.length < 2 ^ 64 ∧ ObjectFile.decode bytes = .ok input.file) →
      (link ⟨inputs⟩).1 ≠ .error .outOfBounds := by
  intro h
  refine h [⟨[ascii 'a'], jumpAt (0 - 1)⟩] ?_ (by decide +kernel)
  intro input hinput
  rw [List.mem_singleton.1 hinput]
  exact ⟨rfl, exists_decode_jumpAt (by decide)⟩

end Linker

end VectorRisc
