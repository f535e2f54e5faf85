/-
Module: VectorRisc.Proofs.Memory.Layout
Layer: Proofs
Purpose: The address map over a run. The regions a memory was laid out with keep their ranges and
  permissions, those that nothing may write keep their bytes, and the heap, which alone moves, comes last
  in the order that addresses are looked up in and never holds code.
Imports: Mathlib.Tactic, VectorRisc.Proofs.Machine.Change, VectorRisc.Proofs.Memory.Region
Trusted boundary: none
Main exports: Region.Kept, Memory.Laid, Memory.Laid.change, Memory.Laid.region?_of_frozen,
  Memory.Laid.region?_of_execute
Open obligations: none
-/
import Mathlib.Tactic
import VectorRisc.Proofs.Machine.Change
import VectorRisc.Proofs.Memory.Region

namespace VectorRisc

/-! ### Regions -/

/-- The region is still the range it was, and has its bytes if nothing may write to it. -/
structure Region.Kept (before after : Region) : Prop where
  name : after.name = before.name
  first : after.first = before.first
  last : after.last = before.last
  access : after.access = before.access
  frozen : before.access.write = false → after = before

namespace Region

theorem Kept.refl (r : Region) : r.Kept r := ⟨rfl, rfl, rfl, rfl, fun _ => rfl⟩

theorem Kept.contains {r after : Region} (h : r.Kept after) (addr : UInt64) :
    after.contains addr = r.contains addr := by
  rw [Bool.eq_iff_iff, contains_iff, contains_iff, Region.size, Region.size, h.first, h.last]

/-- Bytes put into a writable region leave it the range it was. -/
theorem Kept.put {r after : Region} (h : r.Kept after) (hwrite : after.access.write = true)
    (addr : UInt64) (bytes : List UInt8) : r.Kept (after.put addr bytes) := by
  refine ⟨h.name, h.first, h.last, h.access, ?_⟩
  intro hread
  rw [← h.access, hwrite] at hread
  cases hread

/-- A region that lets bytes be written is writable. -/
theorem write_of_writeFault? {r : Region} {addr : UInt64} {n : Nat}
    (h : r.writeFault? addr n = none) : r.access.write = true := by
  have hallowed : r.fault? addr n Access.forWrite = none := by
    simp only [writeFault?, Option.or_eq_none_iff] at h
    exact h.1
  simp only [fault?] at hallowed
  split at hallowed
  · cases hallowed
  · rename_i hchecks
    simp only [Bool.or_eq_true, not_or, Bool.not_eq_true', Bool.not_eq_false] at hchecks
    have hallows := hchecks.1.1.1.1
    simp only [Access.allows, Access.forWrite, Bool.and_eq_true] at hallows
    simpa using hallows.1.2

end Region

namespace Memory

/-! ### Looking up an address -/

/-- Regions that were kept are found at the same addresses. -/
theorem find?_kept {fixed kept : List Region} (h : List.Forall₂ Region.Kept fixed kept) (addr : UInt64) :
    Option.Rel Region.Kept (fixed.find? fun r => r.contains addr)
      (kept.find? fun r => r.contains addr) := by
  induction h with
  | nil => exact .none
  | cons hhead _ ih =>
      rw [List.find?_cons, List.find?_cons, hhead.contains addr]
      split
      · exact .some hhead
      · exact ih

/-- Changing the first element of a list that qualifies changes it in the front part, if it is there. -/
theorem modifyFirst_append {α : Type} (p : α → Bool) (f : α → α) (front back : List α) :
    modifyFirst p f (front ++ back) =
      if front.any p then modifyFirst p f front ++ back else front ++ modifyFirst p f back := by
  induction front with
  | nil => simp
  | cons a rest ih =>
      by_cases hp : p a
      · simp [modifyFirst, hp]
      · simp only [List.cons_append, modifyFirst, hp, if_false, ih, List.any_cons, Bool.false_or,
          Bool.false_eq_true]
        split <;> rfl

/-- Bytes put into the region of an address keep all regions, if that region is writable. -/
theorem modifyFirst_kept {fixed kept : List Region} (h : List.Forall₂ Region.Kept fixed kept)
    (addr : UInt64) (bytes : List UInt8)
    (hwrite : ∀ r, kept.find? (fun r => r.contains addr) = some r → r.access.write = true) :
    List.Forall₂ Region.Kept fixed
      (modifyFirst (fun r => r.contains addr) (fun r => r.put addr bytes) kept) := by
  induction h with
  | nil => exact .nil
  | cons hhead htail ih =>
      rename_i r after fixed kept
      by_cases hp : after.contains addr
      · have hafter : after.access.write = true := hwrite after (by simp [hp])
        simp only [modifyFirst, hp, if_true]
        exact .cons (hhead.put hafter addr bytes) htail
      · simp only [modifyFirst, hp, Bool.false_eq_true, if_false]
        refine .cons hhead (ih ?_)
        intro r hr
        exact hwrite r (by simpa [hp] using hr)

/-! ### The layout -/

/-- The memory is laid out as a list of regions that are kept, and a heap after them. -/
structure Laid (fixed : List Region) (m : Memory) : Prop where
  shape : ∃ kept heap, m.regions = kept ++ [heap] ∧ m.heap = some kept.length ∧
    heap.access = Access.rw ∧ List.Forall₂ Region.Kept fixed kept

namespace Laid

variable {fixed : List Region} {m : Memory}

/-- A permitted store keeps the layout. -/
theorem put (h : Laid fixed m) {addr : UInt64} {bytes : List UInt8}
    (hstore : m.storeFault? addr bytes.length = none) : Laid fixed (m.put addr bytes) := by
  obtain ⟨kept, heap, hregions, hheap, haccess, hkept⟩ := h.shape
  have hwrite : ∀ r, kept.find? (fun r => r.contains addr) = some r → r.access.write = true := by
    intro r hr
    have hfound : m.region? addr = some r := by
      rw [region?, hregions, List.find?_append, hr]
      rfl
    rw [storeFault?, hfound] at hstore
    exact Region.write_of_writeFault? hstore
  refine ⟨?_⟩
  simp only [Memory.put, hregions, modifyFirst_append]
  split
  · refine ⟨_, heap, rfl, ?_, haccess, modifyFirst_kept hkept addr bytes hwrite⟩
    have hlength := (modifyFirst_kept hkept addr bytes hwrite).length_eq
    rw [hheap, ← hlength, hkept.length_eq]
  · by_cases hlast : heap.contains addr
    · exact ⟨kept, heap.put addr bytes, by simp [modifyFirst, hlast], hheap, haccess, hkept⟩
    · exact ⟨kept, heap, by simp [modifyFirst, hlast], hheap, haccess, hkept⟩

/-- A move of the break keeps the layout. -/
theorem shift (h : Laid fixed m) (delta : Int64) : Laid fixed (m.shift delta) := by
  obtain ⟨kept, heap, hregions, hheap, haccess, hkept⟩ := h.shape
  simp only [Memory.shift, hheap]
  split
  · exact h
  · refine ⟨kept, resize heap (heap.stop + delta.toUInt64), ?_, rfl, haccess, hkept⟩
    simp [hregions, List.modify_eq_take_cons_drop]

/-- Whatever an instruction does to memory keeps the layout. -/
theorem change (h : Laid fixed m) {after : Memory} (hchange : m.Change after) : Laid fixed after := by
  cases hchange with
  | same => exact h
  | stored addr bytes hstore => exact h.put hstore
  | moved delta _ => exact h.shift delta

/-- An address of a region that nothing may write is found there, with the bytes of the layout. -/
theorem region?_of_frozen (h : Laid fixed m) {addr : UInt64} {r : Region}
    (hfound : fixed.find? (fun r => r.contains addr) = some r) (hfrozen : r.access.write = false) :
    m.region? addr = some r := by
  obtain ⟨kept, heap, hregions, -, -, hkept⟩ := h.shape
  have hrel := find?_kept hkept addr
  rw [hfound] at hrel
  cases hafter : kept.find? (fun r => r.contains addr) with
  | none =>
      rw [hafter] at hrel
      cases hrel
  | some after =>
      rw [hafter] at hrel
      cases hrel with
      | some hk => rw [region?, hregions, List.find?_append, hafter, hk.frozen hfrozen]; rfl

/-- An address in an executable region is one of a region of the layout. -/
theorem region?_of_execute (h : Laid fixed m) {addr : UInt64} {after : Region}
    (hfound : m.region? addr = some after) (hexecute : after.access.execute = true) :
    ∃ r, fixed.find? (fun r => r.contains addr) = some r ∧ r.Kept after := by
  obtain ⟨kept, heap, hregions, -, haccess, hkept⟩ := h.shape
  have hrel := find?_kept hkept addr
  rw [region?, hregions, List.find?_append] at hfound
  cases hafter : kept.find? (fun r => r.contains addr) with
  | none =>
      -- only the heap is left, and it is not executable
      rw [hafter, Option.none_or] at hfound
      have hheap : after = heap := by
        simpa using List.mem_of_find?_eq_some hfound
      rw [hheap, haccess] at hexecute
      cases hexecute
  | some found =>
      rw [hafter, Option.some_or, Option.some_inj] at hfound
      subst hfound
      rw [hafter] at hrel
      cases hfixed : fixed.find? (fun r => r.contains addr) with
      | none =>
          rw [hfixed] at hrel
          cases hrel
      | some r =>
          rw [hfixed] at hrel
          cases hrel with
          | some hk => exact ⟨r, rfl, hk⟩

/-- A region that nothing may write stays in memory as it was laid out. -/
theorem mem_of_frozen (h : Laid fixed m) {r : Region} (hr : r ∈ fixed)
    (hfrozen : r.access.write = false) : r ∈ m.regions := by
  obtain ⟨kept, heap, hregions, -, -, hkept⟩ := h.shape
  obtain ⟨hlength, hget⟩ := List.forall₂_iff_get.1 hkept
  obtain ⟨i, hi, rfl⟩ := List.mem_iff_getElem.1 hr
  have hk := hget i hi (hlength ▸ hi)
  have hsame : kept.get ⟨i, hlength ▸ hi⟩ = fixed[i] := hk.frozen hfrozen
  rw [hregions, ← hsame]
  exact List.mem_append_left _ (List.get_mem _ _)

/-- An executable region of memory is one that was laid out. -/
theorem kept_of_execute (h : Laid fixed m) {after : Region} (hafter : after ∈ m.regions)
    (hexecute : after.access.execute = true) : ∃ r ∈ fixed, r.Kept after := by
  obtain ⟨kept, heap, hregions, -, haccess, hkept⟩ := h.shape
  rw [hregions, List.mem_append, List.mem_singleton] at hafter
  rcases hafter with hkeptMem | rfl
  · obtain ⟨hlength, hget⟩ := List.forall₂_iff_get.1 hkept
    obtain ⟨i, hi, rfl⟩ := List.mem_iff_getElem.1 hkeptMem
    exact ⟨_, List.get_mem fixed ⟨i, hlength ▸ hi⟩, hget i (hlength ▸ hi) hi⟩
  · rw [haccess] at hexecute
    cases hexecute

end Laid

end Memory

end VectorRisc
