/-
Module: VectorRisc.Proofs.Memory.Store
Layer: Proofs
Purpose: What one store does to a memory whose regions may share addresses. It writes to the first region
  that holds the address: there the bytes are found again, and every byte elsewhere, of that region or of
  another, stays.
Imports: Mathlib.Tactic, VectorRisc.Proofs.Memory.Built
Trusted boundary: none
Main exports: Buffer.Backed, Region.get_put, Region.Alters, Region.Written, Memory.modifyFirst_eq_modify,
  Memory.getElem?_put, Memory.region?_put_self, Memory.Alters, Memory.Alters.byte, Memory.alters_put, Memory.get_put,
  Memory.load_put
Open obligations: none
-/
import Mathlib.Tactic
import VectorRisc.Proofs.Memory.Built

namespace VectorRisc

/-! ### Storage -/

namespace Buffer

/-- There is storage for the size. -/
def Backed (b : Buffer) : Prop := b.size.toNat ≤ b.data.size

variable {b : Buffer} {offset : UInt64} {bytes : List UInt8}

/-- A buffer that may grow has the size and storage for it. -/
theorem Backed.extend (h : b.Backed) {size : UInt64} (hgrow : b.growFault? size = none) :
    (b.extend size).Backed ∧ size ≤ (b.extend size).size := by
  by_cases hless : size ≤ b.size
  · rw [Buffer.extend, if_pos hless]
    exact ⟨h, hless⟩
  · by_cases hroom : size.toNat ≤ b.data.size
    · rw [Buffer.extend, if_neg hless, if_pos hroom]
      exact ⟨hroom, UInt64.le_refl size⟩
    · have hlimit : size.toNat ≤ b.limit.toNat := by
        rw [growFault?, ite_eq_right_iff] at hgrow
        simp only [reduceCtorEq, imp_false, Bool.and_eq_true, decide_eq_true_eq, not_and,
          UInt64.not_lt] at hgrow
        exact UInt64.le_iff_toNat_le.1 (hgrow (UInt64.not_le.1 hless))
      rw [Buffer.extend, if_neg hless, if_neg hroom]
      refine ⟨?_, UInt64.le_refl size⟩
      simp only [Backed, ByteArray.size_append, Bytes.size_zeros, capacityFor]
      omega

/-- A write that is not refused ends where it should. -/
theorem toNat_stop_of_writeFault? (hn : bytes.length < 2 ^ 64)
    (h : b.writeFault? offset bytes.length = none) :
    (offset + UInt64.ofNat bytes.length).toNat = offset.toNat + bytes.length := by
  have hwrap := (Option.or_eq_none_iff.1 h).2
  rw [ite_eq_right_iff] at hwrap
  simp only [reduceCtorEq, imp_false, UInt64.not_lt, UInt64.le_iff_toNat_le, UInt64.toNat_add,
    UInt64.toNat_ofNat'] at hwrap
  have hoffset := offset.toNat_lt
  rw [UInt64.toNat_add, UInt64.toNat_ofNat']
  omega

/-- Bytes that are put are found where they were put. -/
theorem get_put (h : b.Backed) (hn : bytes.length < 2 ^ 64)
    (hfault : b.writeFault? offset bytes.length = none) {i : Nat} (hi : i < bytes.length) :
    (b.put offset bytes).get (offset.toNat + i) = bytes.get ⟨i, hi⟩ := by
  have hstop := toNat_stop_of_writeFault? hn hfault
  obtain ⟨hbacked, hcovered⟩ := h.extend (Option.or_eq_none_iff.1 hfault).1
  rw [UInt64.le_iff_toNat_le, hstop] at hcovered
  rw [Backed] at hbacked
  rw [get, if_pos (by simp only [Buffer.put]; omega)]
  exact Bytes.byteAt_overlay_of_inside hi (by omega)

end Buffer

namespace Region

variable {r : Region} {addr : UInt64} {bytes : List UInt8}

/-- What is read from the addresses that a write has reached. -/
theorem get_put (hbacked : r.buffer.Backed) (hn : bytes.length < 2 ^ 64)
    (hfault : r.writeFault? addr bytes.length = none) {k n : Nat} (hreach : k + n ≤ bytes.length) :
    (r.put addr bytes).get (addr + UInt64.ofNat k) n = (bytes.drop k).take n := by
  have hbuffer := (Option.or_eq_none_iff.1 hfault).2
  have hstop := Buffer.toNat_stop_of_writeFault? hn hbuffer
  have hbound := (addr - r.first + UInt64.ofNat bytes.length).toNat_lt
  have hplace : (addr + UInt64.ofNat k - r.first).toNat = (addr - r.first).toNat + k := by
    have hswap : addr + UInt64.ofNat k - r.first = addr - r.first + UInt64.ofNat k := by
      rw [UInt64.sub_eq_add_neg, UInt64.sub_eq_add_neg, UInt64.add_assoc, UInt64.add_comm (UInt64.ofNat k),
        UInt64.add_assoc]
    rw [hswap, UInt64.toNat_add, UInt64.toNat_ofNat']
    omega
  have hread : (r.put addr bytes).get (addr + UInt64.ofNat k) n =
      (List.range n).map fun i => (r.buffer.put (addr - r.first) bytes).get
        ((addr + UInt64.ofNat k - r.first).toNat + i) := rfl
  apply List.ext_getElem
  · simp only [hread, List.length_map, List.length_range, List.length_take, List.length_drop]
    omega
  · intro i hi _
    simp only [hread, List.length_map, List.length_range] at hi
    simp only [hread, List.getElem_map, List.getElem_range, hplace, Nat.add_assoc, List.getElem_take,
      List.getElem_drop]
    exact Buffer.get_put hbacked hn hbuffer (by omega)

/-- The region with other bytes at some of its addresses. -/
structure Alters (changed : UInt64 → Prop) (r after : Region) : Prop where
  name : after.name = r.name
  first : after.first = r.first
  last : after.last = r.last
  access : after.access = r.access
  byte : ∀ a, r.contains a = true → ¬changed a → after.byte a = r.byte a

theorem Alters.refl (changed : UInt64 → Prop) (r : Region) : Alters changed r r :=
  ⟨rfl, rfl, rfl, rfl, fun _ _ _ => rfl⟩

theorem Alters.contains {changed : UInt64 → Prop} {after : Region} (h : Alters changed r after)
    (a : UInt64) : after.contains a = r.contains a := by
  rw [Bool.eq_iff_iff, contains_iff, contains_iff, size, size, h.first, h.last]

/-- The addresses of a write, which do not wrap around. -/
def Written (addr : UInt64) (n : Nat) (a : UInt64) : Prop := addr.toNat ≤ a.toNat ∧ a.toNat < addr.toNat + n

/-- A write that the region allows alters it at its addresses only. -/
theorem Sound.alters_put (h : r.Sound) (hn : bytes.length < 2 ^ 64) (haddr : r.contains addr = true)
    (hfault : r.fault? addr bytes.length Access.forWrite = none) :
    Alters (Written addr bytes.length) r (r.put addr bytes) := by
  obtain ⟨-, -, hwrap, -⟩ := (fault?_eq_none_iff_contains hn haddr).1 hfault
  refine ⟨rfl, rfl, rfl, rfl, ?_⟩
  intro a ha hout
  have hpast : bytes.length ≤ (a - addr).toNat := by
    have haddrlt := addr.toNat_lt
    have halt := a.toNat_lt
    rw [Written] at hout
    rw [UInt64.toNat_sub]
    omega
  rw [(h.put hn haddr hfault).2 a ha, List.getElem?_eq_none hpast, Option.getD_none]

end Region

namespace Memory

variable {m after : Memory} {addr : UInt64} {bytes : List UInt8}

/-! ### The region that is written to -/

section Lists

variable {α : Type} {p : α → Bool} {f : α → α}

/-- The first element that qualifies is changed at its place. -/
theorem modifyFirst_eq_modify (list : List α) :
    modifyFirst p f list = list.modify (list.findIdx p) f := by
  induction list with
  | nil => rfl
  | cons a rest ih =>
      by_cases ha : p a = true
      · simp [modifyFirst, ha, List.findIdx_cons]
      · simp [modifyFirst, ha, List.findIdx_cons, ih]

/-- Elements that stay are related to themselves, and the one that is found to what it becomes. -/
theorem forall₂_modifyFirst {R : α → α → Prop} (hrefl : ∀ a, R a a) {list : List α}
    (hfound : ∀ a, list.find? p = some a → R a (f a)) : List.Forall₂ R list (modifyFirst p f list) := by
  induction list with
  | nil => exact .nil
  | cons a rest ih =>
      by_cases ha : p a = true
      · rw [modifyFirst, if_pos ha]
        exact .cons (hfound a (List.find?_cons_of_pos ha)) (List.forall₂_same.2 fun b _ => hrefl b)
      · rw [modifyFirst, if_neg ha]
        refine .cons (hrefl a) (ih ?_)
        intro b hb
        exact hfound b (by rwa [List.find?_cons_of_neg ha])

end Lists

/-- What a store does to the region at a place. -/
theorem getElem?_put (m : Memory) (addr : UInt64) (bytes : List UInt8) (j : Nat) :
    (m.put addr bytes).regions[j]? = m.regions[j]?.map fun r =>
      if m.regions.findIdx (fun r => r.contains addr) = j then r.put addr bytes else r := by
  simp only [put, modifyFirst_eq_modify, List.getElem?_modify]
  rfl

/-- The region that was written to is found again. -/
theorem region?_put_self (m : Memory) (addr : UInt64) (bytes : List UInt8) :
    (m.put addr bytes).region? addr = (m.region? addr).map (·.put addr bytes) := by
  simp only [region?, put]
  induction m.regions with
  | nil => rfl
  | cons r rest ih =>
      have hsame : (r.put addr bytes).contains addr = r.contains addr := rfl
      rw [modifyFirst, List.find?_cons]
      cases hr : r.contains addr with
      | true => rw [if_pos rfl, List.find?_cons, hsame, hr, Option.map_some]
      | false => rw [if_neg Bool.false_ne_true, List.find?_cons, hr, ih]

/-! ### Bytes that stay -/

/-- The memory with other bytes at some addresses, in whatever region. -/
structure Alters (m after : Memory) (changed : UInt64 → Prop) : Prop where
  heap : after.heap = m.heap
  stack : after.stack = m.stack
  regions : List.Forall₂ (Region.Alters changed) m.regions after.regions

theorem Alters.refl (m : Memory) (changed : UInt64 → Prop) : m.Alters m changed :=
  ⟨rfl, rfl, List.forall₂_same.2 fun r _ => .refl changed r⟩

/-- The byte at any other address is the same. -/
theorem Alters.byte {changed : UInt64 → Prop} (h : m.Alters after changed) {a : UInt64}
    (ha : ¬changed a) : after.byte a = m.byte a := by
  have hregions := h.regions
  simp only [Memory.byte, region?]
  generalize m.regions = list at hregions ⊢
  generalize after.regions = others at hregions ⊢
  induction hregions with
  | nil => rfl
  | @cons r s rest others hr _ ih =>
      rw [List.find?_cons, List.find?_cons, hr.contains a]
      cases hin : r.contains a with
      | true => exact hr.byte a hin ha
      | false => exact ih

/-- A store that is not refused has a region for all its addresses. -/
theorem storeFault?_eq_none {n : Nat} (h : m.storeFault? addr n = none) :
    ∃ r, m.region? addr = some r ∧ r.contains addr = true ∧ r.writeFault? addr n = none := by
  rw [storeFault?] at h
  split at h
  · cases h
  · rename_i r hregion
    exact ⟨r, hregion, contains_of_region? hregion, h⟩

/-- A store to sound storage alters memory at its addresses only. -/
theorem alters_put (hstorage : ∀ r ∈ m.regions, r.Sound) (hn : bytes.length < 2 ^ 64)
    (hfault : m.storeFault? addr bytes.length = none) :
    m.Alters (m.put addr bytes) (Region.Written addr bytes.length) := by
  obtain ⟨r, hregion, hcontains, hwrite⟩ := storeFault?_eq_none hfault
  have hsound := hstorage r (mem_of_region? hregion)
  refine ⟨rfl, rfl, forall₂_modifyFirst (.refl _) ?_⟩
  intro found hfound
  obtain rfl : r = found := Option.some.inj (hregion.symm.trans hfound)
  exact hsound.alters_put hn hcontains ((hsound.writeFault?_eq hn hcontains).symm.trans hwrite)

/-- The bytes of a store are found at its address. -/
theorem get_put (hstorage : ∀ r ∈ m.regions, r.Sound) (hn : bytes.length < 2 ^ 64)
    (hfault : m.storeFault? addr bytes.length = none) :
    (m.put addr bytes).get addr bytes.length = bytes := by
  obtain ⟨r, hregion, -, hwrite⟩ := storeFault?_eq_none hfault
  have hbacked : r.buffer.Backed := (hstorage r (mem_of_region? hregion)).buffer.stored
  have hread := Region.get_put hbacked hn hwrite (k := 0) (Nat.zero_add _).le
  have hhere : addr + UInt64.ofNat 0 = addr := UInt64.add_zero addr
  rw [get, region?_put_self, hregion]
  simpa [hhere] using hread

/-! ### Loads after a store -/

/-- There is storage for the size of every region. -/
def Backed (m : Memory) : Prop := ∀ r ∈ m.regions, r.buffer.Backed

/-- A part of what was stored is loaded, where no other region has the address and its own can be read. -/
theorem load_put (hapart : Apart m.regions) (hbacked : m.Backed) (hn : bytes.length < 2 ^ 64)
    (hfault : m.storeFault? addr bytes.length = none) {r : Region} (hregion : m.region? addr = some r)
    (hreadable : r.access.allows Access.forRead = true) {k n : Nat} (hpos : 0 < n)
    (hreach : k + n ≤ bytes.length) :
    (m.put addr bytes).load (addr + UInt64.ofNat k) n = .ok ((bytes.drop k).take n) := by
  obtain ⟨written, hwritten, hcontains, hwrite⟩ := storeFault?_eq_none hfault
  obtain rfl : written = r := Option.some.inj (hwritten.symm.trans hregion)
  obtain ⟨-, -, hwrap, hall⟩ :=
    (Region.fault?_eq_none_iff_contains hn hcontains).1 (Option.or_eq_none_iff.1 hwrite).1
  have hplace : (addr + UInt64.ofNat k).toNat = addr.toNat + k := by
    rw [UInt64.toNat_add, UInt64.toNat_ofNat']
    omega
  have hin : written.contains (addr + UInt64.ofNat k) = true := hall k (by omega)
  have hfound : (m.put addr bytes).region? (addr + UInt64.ofNat k) = some (written.put addr bytes) := by
    rw [region?_put hapart, hapart.region?_eq_some (mem_of_region? hregion) hin, Option.map_some, stored,
      if_pos hcontains]
  have hallowed : (written.put addr bytes).fault? (addr + UInt64.ofNat k) n Access.forRead = none := by
    refine (Region.fault?_eq_none_iff_contains (by omega) hin).2 ⟨hreadable, hpos, by omega, ?_⟩
    intro i hi
    rw [UInt64.add_assoc, ← UInt64.ofNat_add]
    exact hall (k + i) (by omega)
  simp only [load, read, fault?, get, hfound, hallowed]
  rw [Region.get_put (hbacked written (mem_of_region? hregion)) hn hwrite hreach]

end Memory

end VectorRisc
