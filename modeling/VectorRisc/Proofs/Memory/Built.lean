/-
Module: VectorRisc.Proofs.Memory.Built
Layer: Proofs
Purpose: Memories that come about by adding regions, storing bytes and moving the break, in any order. The
  storage of each of their regions is sound, also where a heap has grown over another region.
Imports: Mathlib.Tactic, VectorRisc.Proofs.Memory.Contents, VectorRisc.Proofs.Memory.Overlap
Trusted boundary: none
Main exports: Memory.Built, Region.Sound.resize, Memory.Built.storage, Memory.Built.sound
Open obligations: none
-/
import Mathlib.Tactic
import VectorRisc.Proofs.Memory.Contents
import VectorRisc.Proofs.Memory.Overlap

namespace VectorRisc

/-- Storage of another size and limit is sound. -/
theorem Buffer.Sound.truncate {b : Buffer} (h : b.Sound) (size : UInt64) :
    (({ b with limit := size } : Buffer).truncate size).Sound := by
  rw [Buffer.truncate]
  split
  · rename_i hless
    exact ⟨hless, h.stored, h.clear⟩
  · rename_i hmore
    have hcut : size.toNat < b.size.toNat := UInt64.lt_iff_toNat_lt.1 (UInt64.not_le.1 hmore)
    have hstored := h.stored
    refine ⟨UInt64.le_refl size, ?_, ?_⟩
    · simp only [Bytes.size_clear]
      omega
    · intro i hi
      have hpast : size.toNat ≤ i := hi
      simp only [Bytes.byteAt_clear]
      split
      · rfl
      · exact h.clear i (by omega)

/-- A heap that is resized has sound storage. -/
theorem Region.Sound.resize {heap : Region} (h : heap.Sound) (next : UInt64) :
    (Memory.resize heap next).Sound :=
  ⟨h.buffer.truncate (next - heap.first), Memory.limit_resize heap next⟩

namespace Memory

/-- A memory that came about by adding regions, storing bytes and moving the break. -/
inductive Built : Memory → Prop where
  | empty : Built {}
  | place {m after : Memory} {p : Placement} (h : Built m) (hplace : m.place p = .ok after) : Built after
  | write {m after : Memory} {w : Write} (h : Built m) (hwrite : m.write w = .ok after) : Built after
  | moveBreak {m after : Memory} {delta : Int64} (h : Built m) (hmove : m.moveBreak delta = .ok after) :
      Built after

/-- The storage of every region is sound. -/
theorem Built.storage {m : Memory} (h : m.Built) : ∀ r ∈ m.regions, r.Sound := by
  induction h with
  | empty =>
      intro r hr
      cases hr
  | @place m after p _ hplace ih =>
      intro r hr
      rw [(place_eq_ok hplace).1, List.mem_append, List.mem_singleton] at hr
      rcases hr with hold | rfl
      · exact ih r hold
      · exact sound_placed m p
  | @write m after w _ hwrite ih =>
      intro r hr
      rw [Memory.write, store] at hwrite
      split at hwrite
      · cases hwrite
      · rename_i hstore
        cases hwrite
        rcases mem_modifyFirst hr with hold | ⟨found, hfound, rfl⟩
        · exact ih r hold
        · have hregion : m.region? w.addr = some found := hfound
          have hcontains := contains_of_region? hregion
          have hsound := ih found (mem_of_region? hregion)
          rw [storeFault?, hregion] at hstore
          exact (hsound.put w.fits hcontains
            ((hsound.writeFault?_eq w.fits hcontains).symm.trans hstore)).1
  | @moveBreak m after delta _ hmove ih =>
      intro r hr
      rcases moveBreak_cases hmove with ⟨-, rfl⟩ | ⟨i, heap, -, hheap, -, -, rfl⟩
      · exact ih r hr
      · rcases List.mem_or_eq_of_mem_set hr with hold | rfl
        · exact ih r hold
        · exact (ih heap (List.mem_of_getElem? hheap)).resize _

/-- Where its regions share no address, the memory is sound. -/
theorem Built.sound {m : Memory} (h : m.Built) (hapart : Apart m.regions) : m.Sound :=
  ⟨hapart, h.storage⟩

end Memory

end VectorRisc
