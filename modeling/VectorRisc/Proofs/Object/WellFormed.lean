/-
Module: VectorRisc.Proofs.Object.WellFormed
Layer: Proofs
Purpose: What an object has to be for the linker to make sense of it: code in whole words, labels that
  are distinct and lie in their sections, and relocations that stand on instructions of the right kind,
  apart from each other.
Imports: Mathlib.Tactic, VectorRisc.Assembler.Basic, VectorRisc.Object.Linker, VectorRisc.Proofs.Bytes,
  VectorRisc.Proofs.Instruction.Target
Trusted boundary: none
Main exports: Relocation.Placed, Relocation.Apart, ObjectFile.WellFormed
Open obligations: none
-/
import Mathlib.Tactic
import VectorRisc.Assembler.Basic
import VectorRisc.Object.Linker
import VectorRisc.Proofs.Bytes
import VectorRisc.Proofs.Instruction.Target

namespace VectorRisc

namespace PerSegment

variable {α : Type}

theorem get_modify (p : PerSegment α) (s t : Segment) (f : α → α) :
    (p.modify s f).get t = if t = s then f (p.get t) else p.get t := by
  cases s <;> cases t <;> rfl

theorem get_set (p : PerSegment α) (s t : Segment) (a : α) :
    (p.set s a).get t = if t = s then a else p.get t := by
  cases s <;> cases t <;> rfl

@[simp] theorem get_ofFn (f : Segment → α) (s : Segment) : (PerSegment.ofFn f).get s = f s := by
  cases s <;> rfl

end PerSegment

/-- A section takes at least the memory of its data. -/
theorem Section.size64_le_size (c : Section) : (Bytes.size64 c.data).toNat ≤ c.size.toNat := by
  rw [size]
  split
  · exact le_refl _
  · rename_i h
    exact Nat.le_of_not_lt h

namespace RelocationKind

/-- A kind for a code segment names that segment. -/
theorem segment_placedIn (patch : Patch) {s : Segment} (h : s.isCode = true) :
    ((ofPatch patch).placedIn s).segment = s := by
  cases s with
  | text => cases patch <;> rfl
  | ktext => cases patch <;> rfl
  | data => cases h
  | kdata => cases h

/-- A kind for a segment says what is patched. -/
theorem patch?_placedIn (patch : Patch) (s : Segment) :
    ((ofPatch patch).placedIn s).patch? = some patch := by
  cases s <;> cases patch <;> rfl

/-- The linker changes as many words as the patch of a kind has. -/
theorem wordsOf_placedIn (patch : Patch) (s : Segment) :
    (Linker.wordsOf ((ofPatch patch).placedIn s)).toNat = patch.words := by
  rw [Linker.wordsOf, patch?_placedIn]
  cases patch <;> rfl

end RelocationKind

namespace Relocation

/-- A relocation in code: its kind names the segment, and at its position, aligned and inside, are the
    words that its patch is meant for. -/
structure Placed (image : Segment → ByteArray) (r : Relocation) (s : Segment) (patch : Patch) : Prop where
  code : s.isCode = true
  kind : r.kind = (RelocationKind.ofPatch patch).placedIn s
  aligned : 4 ∣ r.position.toNat
  inside : r.position.toNat + 4 * patch.words ≤ (image s).size
  hosts : patch.Hosts (Bytes.wordsAt (image s) r.position.toNat patch.words)

/-- The end of the bytes that a relocation changes. -/
def stop (r : Relocation) : Nat := r.position.toNat + 4 * (Linker.wordsOf r.kind).toNat

/-- Two relocations change no common byte. -/
def Apart (a b : Relocation) : Prop :=
  a.kind.segment = b.kind.segment → a.stop ≤ b.position.toNat ∨ b.stop ≤ a.position.toNat

namespace Placed

variable {image : Segment → ByteArray} {r : Relocation} {s : Segment} {patch : Patch}

theorem segment_eq (h : r.Placed image s patch) : r.kind.segment = s := by
  rw [h.kind, RelocationKind.segment_placedIn patch h.code]

theorem patch?_eq (h : r.Placed image s patch) : r.kind.patch? = some patch := by
  rw [h.kind, RelocationKind.patch?_placedIn]

theorem stop_eq (h : r.Placed image s patch) : r.stop = r.position.toNat + 4 * patch.words := by
  rw [stop, h.kind, RelocationKind.wordsOf_placedIn]

/-- A relocation stays in place while its section grows. -/
theorem grow (h : r.Placed image s patch) {larger : Segment → ByteArray} {more : ByteArray}
    (hs : larger s = image s ++ more) : r.Placed larger s patch := by
  refine ⟨h.code, h.kind, h.aligned, ?_, ?_⟩
  · rw [hs, ByteArray.size_append]
    exact le_add_right h.inside
  · rw [hs, Bytes.wordsAt_append_left more h.inside]
    exact h.hosts

end Placed

end Relocation

/-- A well-formed object. -/
structure ObjectFile.WellFormed (file : ObjectFile) : Prop where
  kind : file.kind = .relocatable
  /-- Sections stand at their fixed addresses, have no more bytes than can be allocated, and declare no
      memory beyond them. -/
  addr : ∀ s, (file.sections.get s).addr = s.base
  memSize : ∀ s, (file.sections.get s).memSize = 0
  size : ∀ s, (file.sections.get s).data.size ≤ Bytes.lengthMax
  /-- Code is made of words. -/
  code : ∀ s : Segment, s.isCode = true → 4 ∣ (file.sections.get s).data.size
  /-- Labels are distinct names, each at a place of its section, in code on a word. -/
  distinct : (file.symbols.map Symbol.label).Nodup
  labels : ∀ sym ∈ file.symbols, sym.label.isLabel = true
  inside : ∀ sym ∈ file.symbols,
    sym.position.toNat ≤ (file.sections.get sym.kind.segment).data.size
  aligned : ∀ sym ∈ file.symbols, sym.kind.segment.isCode = true → 4 ∣ sym.position.toNat
  /-- Relocations stand on instructions of their kind, apart from each other. -/
  placed : ∀ r ∈ file.relocations,
    ∃ s patch, r.Placed (fun s => (file.sections.get s).data) s patch
  apart : file.relocations.Pairwise Relocation.Apart
  /-- A relocation with a label of the object finds it there. -/
  internal : ∀ r ∈ file.relocations, r.scope = .internal → ∃ sym ∈ file.symbols, sym.label = r.label
  scope : ∀ r ∈ file.relocations, r.scope = .internal ∨ r.scope = .global
  /-- The entry is the address of a label, if there is one. -/
  entry : file.entry = 0 ∨ ∃ sym ∈ file.symbols, file.entry = file.addressOf sym

end VectorRisc
