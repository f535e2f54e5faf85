/-
Module: VectorRisc.Proofs.Memory.Region
Layer: Proofs
Purpose: The addresses of regions. An access that a region allows has all its addresses there, and a
  region that is added to a memory shares no address with those before it.
Imports: Mathlib.Tactic, VectorRisc.Memory.Basic, VectorRisc.Proofs.Outcome
Trusted boundary: none
Main exports: Region.contains_iff, Region.fault?_eq_none_iff, Region.fault?_eq_none_iff_contains,
  Memory.Apart, Memory.Apart.find?_eq_some, Memory.add_eq_ok, Memory.addStack_eq_ok,
  Memory.addHeap_eq_ok, Memory.Placement, Memory.place, Memory.place_eq_ok
Open obligations: none
-/
import Mathlib.Tactic
import VectorRisc.Memory.Basic
import VectorRisc.Proofs.Outcome

namespace VectorRisc

namespace Region

variable {r : Region} {addr : UInt64} {n : Nat} {wanted : Access}

/-! ### Addresses of a region -/

theorem contains_iff : r.contains addr = true ↔ r.size ≠ 0 ∧ r.first ≤ addr ∧ addr ≤ r.last := by
  simp [contains, and_assoc]

/-- The size of a region that holds an address. -/
theorem toNat_size (h : r.contains addr = true) : r.size.toNat = r.last.toNat - r.first.toNat + 1 := by
  obtain ⟨hsize, hfirst, hlast⟩ := contains_iff.1 h
  have hnonzero : r.size.toNat ≠ 0 := by simpa [← UInt64.toNat_inj] using hsize
  have hend := r.last.toNat_lt
  rw [UInt64.le_iff_toNat_le] at hfirst hlast
  simp only [size, UInt64.toNat_sub, UInt64.toNat_add, UInt64.toNat_one] at hnonzero ⊢
  omega

/-- A region without addresses ends where it starts. -/
theorem stop_eq_first (h : r.size = 0) : r.stop = r.first := by
  rw [← UInt64.sub_add_cancel r.stop r.first, show r.stop - r.first = 0 from h, UInt64.zero_add]

/-- A region allows an access by its permissions and its bounds. -/
theorem fault?_eq_none_iff : r.fault? addr n wanted = none ↔
    r.access.allows wanted = true ∧ n ≠ 0 ∧ addr ≤ addr + UInt64.ofNat n - 1 ∧ r.first ≤ addr ∧
      addr + UInt64.ofNat n - 1 ≤ r.last := by
  simp only [fault?, ite_eq_right_iff, reduceCtorEq, imp_false, Bool.or_eq_true, not_or,
    Bool.not_eq_true', Bool.not_eq_false, decide_eq_true_eq, UInt64.not_lt, and_assoc, ne_eq]

/-- An access that a region refuses is told as a fault. -/
theorem fault?_eq_some_of_ne_none (h : r.fault? addr n wanted ≠ none) :
    r.fault? addr n wanted = some (.fault addr n wanted) := by
  simp only [fault?] at h ⊢
  split
  · rfl
  · rename_i hpassed
    rw [if_neg hpassed] at h
    exact absurd rfl h

/-- An access at an address of a region is allowed if the region has all its addresses. -/
theorem fault?_eq_none_iff_contains (hn : n < 2 ^ 64) (hcontains : r.contains addr = true) :
    r.fault? addr n wanted = none ↔ r.access.allows wanted = true ∧ 0 < n ∧
      addr.toNat + n ≤ 2 ^ 64 ∧ ∀ i < n, r.contains (addr + UInt64.ofNat i) = true := by
  have haddr := addr.toNat_lt
  obtain ⟨hsize, hfirst, hin⟩ := contains_iff.1 hcontains
  have hoffset : ∀ i < n, addr.toNat + n ≤ 2 ^ 64 → (addr + UInt64.ofNat i).toNat = addr.toNat + i := by
    intro i hi hwrap
    rw [UInt64.toNat_add, UInt64.toNat_ofNat']
    omega
  have hreach : 0 < n → (addr + UInt64.ofNat n - 1).toNat = (addr.toNat + (n - 1)) % 2 ^ 64 := by
    intro hpos
    rw [UInt64.toNat_sub, UInt64.toNat_add, UInt64.toNat_ofNat', UInt64.toNat_one]
    omega
  rw [fault?_eq_none_iff]
  constructor
  · rintro ⟨hallows, hpos, hwrap, -, hlast⟩
    have hend := hreach (by omega)
    rw [UInt64.le_iff_toNat_le, hend] at hwrap hlast
    refine ⟨hallows, by omega, by omega, ?_⟩
    intro i hi
    have hplace := hoffset i hi (by omega)
    rw [contains_iff, UInt64.le_iff_toNat_le, UInt64.le_iff_toNat_le, hplace]
    rw [UInt64.le_iff_toNat_le] at hfirst
    exact ⟨hsize, by omega, by omega⟩
  · rintro ⟨hallows, hpos, hwrap, hall⟩
    have hplace := hoffset (n - 1) (by omega) hwrap
    obtain ⟨-, -, hlast⟩ := contains_iff.1 (hall (n - 1) (by omega))
    rw [UInt64.le_iff_toNat_le, hplace] at hlast
    refine ⟨hallows, by omega, ?_, hfirst, ?_⟩
    · rw [UInt64.le_iff_toNat_le, hreach hpos]
      omega
    · rw [UInt64.le_iff_toNat_le, hreach hpos]
      omega

/-- An access that its region allows lies as far within the region as it reaches. -/
theorem offset_add_le_size (hn : n < 2 ^ 64) (hcontains : r.contains addr = true)
    (h : r.fault? addr n wanted = none) : (addr - r.first).toNat + n ≤ r.size.toNat := by
  obtain ⟨-, hpos, hwrap, hfirst, hlast⟩ := fault?_eq_none_iff.1 h
  have hoffset := UInt64.toNat_sub_of_le _ _ hfirst
  have haddr := addr.toNat_lt
  rw [toNat_size hcontains, hoffset]
  rw [UInt64.le_iff_toNat_le] at hwrap hfirst hlast
  simp only [UInt64.toNat_sub, UInt64.toNat_add, UInt64.toNat_ofNat', UInt64.toNat_one] at hwrap hlast
  omega

/-- The storage of a region that is made may grow to the size of the region. -/
theorem limit_make (name : Text) (first size : UInt64) (access : Access) (image : ByteArray) :
    (make name first size access image).buffer.limit = (make name first size access image).size := by
  simp only [make, Region.size, Buffer.ofImage, UInt64.sub_add_cancel]
  rw [UInt64.add_comm, UInt64.add_sub_cancel]

end Region

namespace Memory

/-! ### Looking up an address -/

theorem contains_of_region? {m : Memory} {addr : UInt64} {r : Region} (h : m.region? addr = some r) :
    r.contains addr = true := by
  rw [region?] at h
  exact List.find?_some (p := fun r : Region => r.contains addr) h

/-- Regions of which none shares an address with one before it. -/
def Apart (regions : List Region) : Prop := regions.Pairwise fun r later => later.overlaps r = false

theorem Apart.snoc {regions : List Region} {r : Region} (h : Apart regions)
    (hr : ∀ other ∈ regions, r.overlaps other = false) : Apart (regions ++ [r]) := by
  refine List.pairwise_append.2 ⟨h, List.pairwise_singleton _ _, ?_⟩
  intro other hother later hlater
  rw [List.mem_singleton.1 hlater]
  exact hr other hother

/-- Regions that do not overlap have no address in common. -/
theorem not_contains_of_overlaps {r other : Region} {addr : UInt64} (h : r.overlaps other = false)
    (hr : r.contains addr = true) : other.contains addr = false := by
  by_contra hboth
  obtain ⟨hsize, hfirst, hlast⟩ := Region.contains_iff.1 hr
  obtain ⟨hsize', hfirst', hlast'⟩ := Region.contains_iff.1 (Bool.of_not_eq_false hboth)
  simp [Region.overlaps, hsize, hsize', UInt64.le_trans hfirst hlast',
    UInt64.le_trans hfirst' hlast] at h

/-- An address of a region is found there, since no other region holds it. -/
theorem Apart.find?_eq_some {regions : List Region} (h : Apart regions) {r : Region} (hr : r ∈ regions)
    {addr : UInt64} (haddr : r.contains addr = true) :
    regions.find? (fun r => r.contains addr) = some r := by
  induction regions with
  | nil => cases hr
  | cons head rest ih =>
      obtain ⟨hhead, hrest⟩ := List.pairwise_cons.1 h
      rcases List.mem_cons.1 hr with rfl | hr
      · simp [haddr]
      · rw [List.find?_cons, not_contains_of_overlaps (hhead r hr) haddr]
        exact ih hrest hr

/-! ### Adding regions -/

/-- A region that is added shares no address with those before it, which stay. -/
theorem add_eq_ok {m after : Memory} {r : Region} (h : m.add r = .ok after) :
    after = { m with regions := m.regions ++ [r] } ∧ ∀ other ∈ m.regions, r.overlaps other = false := by
  rw [add] at h
  split at h
  · cases h
  · rename_i hnone
    cases h
    refine ⟨rfl, ?_⟩
    intro other hother
    simpa using List.find?_eq_none.1 hnone other hother

/-- The region of a stack of at least `size` bytes. -/
def stackRegion (size : UInt64) : Region :=
  let size := Bytes.roundUp size heapAlign
  let r := Region.make (Text.ofString "stack") (stackTop - size) size Access.rw ByteArray.empty
  { r with buffer := r.buffer.extend size }

/-- A stack that is added shares no address with the regions before it. -/
theorem addStack_eq_ok {m after : Memory} {size : UInt64} (h : m.addStack size = .ok after) :
    after = { m with regions := m.regions ++ [stackRegion size], stack := some m.regions.length } ∧
      ∀ other ∈ m.regions, (stackRegion size).overlaps other = false := by
  simp only [addStack] at h
  split at h
  · cases h
  · split at h
    · cases h
    · rename_i buffer hgrow
      obtain ⟨next, hadd, rfl⟩ := map_eq_ok.1 h
      rw [Buffer.grow] at hgrow
      split at hgrow
      · cases hgrow
      · cases hgrow
        obtain ⟨rfl, hapart⟩ := add_eq_ok hadd
        exact ⟨rfl, hapart⟩

/-- The region of a heap that is added to a memory. -/
def heapRegion (m : Memory) (gap : UInt64) : Region :=
  Region.make (Text.ofString "heap") (m.heapStart gap) 0 Access.rw ByteArray.empty

/-- A heap that is added is the last region. -/
theorem addHeap_eq_ok {m after : Memory} {gap : UInt64} (h : m.addHeap gap = .ok after) :
    after = { m with regions := m.regions ++ [m.heapRegion gap], heap := some m.regions.length } := by
  obtain ⟨next, hadd, rfl⟩ := map_eq_ok.1 h
  obtain ⟨rfl, -⟩ := add_eq_ok hadd
  rfl

/-! ### Laying out -/

/-- What the address map is made of: a region with an image that it starts with, a stack, a heap. -/
inductive Placement where
  | region (name : Text) (first size : UInt64) (access : Access) (image : ByteArray)
      (fits : image.size < 2 ^ 64)
  | stack (size : UInt64)
  | heap (gap : UInt64)

/-- Add a part of the address map. -/
def place (m : Memory) : Placement → Except Error Memory
  | .region name first size access image _ => m.add (Region.make name first size access image)
  | .stack size => m.addStack size
  | .heap gap => m.addHeap gap

/-- The region that is added. -/
def placed (m : Memory) : Placement → Region
  | .region name first size access image _ => Region.make name first size access image
  | .stack size => stackRegion size
  | .heap gap => m.heapRegion gap

/-- A heap starts with no address. -/
theorem size_heapRegion (m : Memory) (gap : UInt64) : (m.heapRegion gap).size = 0 := by
  rw [heapRegion, ← Region.limit_make]
  rfl

/-- The region that is added shares no address with those before it. It becomes the heap if it was asked
    for as one. -/
theorem place_eq_ok {m after : Memory} {p : Placement} (h : m.place p = .ok after) :
    after.regions = m.regions ++ [m.placed p] ∧
      (∀ other ∈ m.regions, (m.placed p).overlaps other = false) ∧
      (after.heap = m.heap ∨ (after.heap = some m.regions.length ∧ (m.placed p).size = 0)) := by
  cases p with
  | region name first size access image fits =>
      obtain ⟨rfl, hapart⟩ := add_eq_ok h
      exact ⟨rfl, hapart, .inl rfl⟩
  | stack size =>
      obtain ⟨rfl, hapart⟩ := addStack_eq_ok h
      exact ⟨rfl, hapart, .inl rfl⟩
  | heap gap =>
      obtain rfl := addHeap_eq_ok h
      have hempty := size_heapRegion m gap
      refine ⟨rfl, ?_, .inr ⟨rfl, hempty⟩⟩
      intro other _
      simp [placed, Region.overlaps, hempty]

end Memory

end VectorRisc
