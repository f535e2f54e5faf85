/-
Module: VectorRisc.Proofs.Memory.Contents
Layer: Proofs
Purpose: Memory as one map from addresses to bytes. Whatever was laid out, an access is permitted exactly
  if one region with the permission has all its addresses, and a byte that is loaded is that of the last
  store to its address, or of the image that its region started with, or zero.
Imports: Mathlib.Tactic, VectorRisc.Proofs.Bytes, VectorRisc.Proofs.Memory.Region
Trusted boundary: none
Main exports: Buffer.Sound, Buffer.Sound.put, Memory.Permits, Memory.Sound, Memory.Sound.store_eq,
  Memory.Sound.load_eq, Memory.Sound.byte_put, Memory.load_store_bytes
Open obligations: none
-/
import Mathlib.Tactic
import VectorRisc.Proofs.Bytes
import VectorRisc.Proofs.Memory.Region

namespace VectorRisc

/-! ### Storage -/

namespace Buffer

/-- The size is within the limit, there is storage for it, and storage past it is zero. -/
structure Sound (b : Buffer) : Prop where
  within : b.size ≤ b.limit
  stored : b.size.toNat ≤ b.data.size
  clear : ∀ i, b.size.toNat ≤ i → Bytes.byteAt b.data i = 0

variable {b : Buffer}

@[simp] theorem limit_extend (b : Buffer) (size : UInt64) : (b.extend size).limit = b.limit := by
  rw [extend]
  split
  · rfl
  · split <;> rfl

@[simp] theorem limit_truncate (b : Buffer) (size : UInt64) : (b.truncate size).limit = b.limit := by
  rw [truncate]
  split <;> rfl

/-- Since storage past the size is zero, every byte is that of the storage. -/
theorem Sound.get_eq (h : b.Sound) (i : Nat) : b.get i = Bytes.byteAt b.data i := by
  rw [get]
  split
  · rfl
  · rename_i hpast
    exact (h.clear i (by omega)).symm

theorem sound_ofImage {limit : UInt64} {image : ByteArray} (hfits : image.size < 2 ^ 64)
    (hlimit : Bytes.size64 image ≤ limit) : (ofImage limit image).Sound := by
  have hsize := Bytes.toNat_size64 hfits
  refine ⟨hlimit, hsize.le, ?_⟩
  intro i hi
  exact Bytes.byteAt_of_le (hsize ▸ hi)

theorem byteAt_kept {data : ByteArray} {n i : Nat} (hn : n ≤ data.size) (hi : i < n) :
    Bytes.byteAt (data.extract 0 n) i = Bytes.byteAt data i := by
  have hsize : (data.extract 0 n).size = n := by simp [hn]
  rw [Bytes.byteAt, Bytes.byteAt, dif_pos (by omega), dif_pos (by omega), ByteArray.getElem_extract]
  simp

/-- Storage that grows keeps its bytes. -/
theorem Sound.extend (h : b.Sound) {size : UInt64} (hsize : size ≤ b.limit) :
    (b.extend size).Sound ∧ (b.extend size).limit = b.limit ∧ size ≤ (b.extend size).size ∧
      ∀ i, Bytes.byteAt (b.extend size).data i = Bytes.byteAt b.data i := by
  by_cases hless : size ≤ b.size
  · rw [Buffer.extend, if_pos hless]
    exact ⟨h, rfl, hless, fun _ => rfl⟩
  · have hgrown : b.size.toNat < size.toNat := by
      rw [UInt64.le_iff_toNat_le] at hless
      omega
    by_cases hroom : size.toNat ≤ b.data.size
    · rw [Buffer.extend, if_neg hless, if_pos hroom]
      refine ⟨⟨hsize, hroom, ?_⟩, rfl, UInt64.le_refl size, fun _ => rfl⟩
      intro i hi
      exact h.clear i (hgrown.le.trans hi)
    · -- new storage: what counted is copied, the rest is zero
      have hkept : (b.data.extract 0 b.size.toNat).size = b.size.toNat := by simp [h.stored]
      have hbytes : ∀ i, Bytes.byteAt (b.data.extract 0 b.size.toNat ++
          Bytes.zeros (b.capacityFor size - b.size.toNat)) i = Bytes.byteAt b.data i := by
        intro i
        by_cases hi : i < b.size.toNat
        · rw [Bytes.byteAt_append_left _ (hkept.symm ▸ hi), byteAt_kept h.stored hi]
        · have hplace : i = (b.data.extract 0 b.size.toNat).size + (i - b.size.toNat) := by omega
          rw [h.clear i (by omega), hplace, Bytes.byteAt_append_right, Bytes.byteAt_zeros]
      have hcapacity : size.toNat ≤ b.capacityFor size := by
        rw [UInt64.le_iff_toNat_le] at hsize
        rw [capacityFor]
        omega
      rw [Buffer.extend, if_neg hless, if_neg hroom]
      simp only [hkept]
      refine ⟨⟨hsize, ?_, ?_⟩, trivial, UInt64.le_refl size, hbytes⟩
      · simp only [ByteArray.size_append, hkept, Bytes.size_zeros]
        omega
      · intro i hi
        rw [hbytes, h.clear i (hgrown.le.trans hi)]

/-- Bytes that are put within the limit are found where they were put. -/
theorem Sound.put (h : b.Sound) {offset : UInt64} {bytes : List UInt8}
    (hreach : offset.toNat + bytes.length ≤ b.limit.toNat) :
    (b.put offset bytes).Sound ∧ (b.put offset bytes).limit = b.limit ∧
      (∀ i (hi : i < bytes.length), (b.put offset bytes).get (offset.toNat + i) = bytes.get ⟨i, hi⟩) ∧
      ∀ i, i < offset.toNat ∨ offset.toNat + bytes.length ≤ i → (b.put offset bytes).get i = b.get i := by
  have hlimit := b.limit.toNat_lt
  have hstop : (offset + UInt64.ofNat bytes.length).toNat = offset.toNat + bytes.length := by
    rw [UInt64.toNat_add, UInt64.toNat_ofNat']
    omega
  have hgrown : offset + UInt64.ofNat bytes.length ≤ b.limit := by
    rw [UInt64.le_iff_toNat_le]
    omega
  obtain ⟨hsound, hsame, hcovered, hbytes⟩ := h.extend hgrown
  rw [UInt64.le_iff_toNat_le, hstop] at hcovered
  have hstored := hsound.stored
  have hput : (b.put offset bytes).Sound := by
    refine ⟨hsound.within, ?_, ?_⟩
    · simpa [Buffer.put] using hstored
    · intro i hi
      have hi' : (b.extend (offset + UInt64.ofNat bytes.length)).size.toNat ≤ i := hi
      simp only [Buffer.put]
      rw [Bytes.byteAt_overlay_of_outside (.inr (by omega)), hsound.clear i hi']
  refine ⟨hput, hsame, ?_, ?_⟩
  · intro i hi
    rw [hput.get_eq]
    exact Bytes.byteAt_overlay_of_inside hi (by omega)
  · intro i hi
    rw [hput.get_eq, h.get_eq, ← hbytes i]
    exact Bytes.byteAt_overlay_of_outside hi

end Buffer

/-! ### Regions -/

namespace Region

/-- The storage is sound and may grow to the size of the region. -/
structure Sound (r : Region) : Prop where
  buffer : r.buffer.Sound
  limit : r.buffer.limit = r.size

/-- The byte of a region at an address. -/
def byte (r : Region) (addr : UInt64) : UInt8 := r.buffer.get (addr - r.first).toNat

variable {r : Region} {addr a : UInt64} {bytes : List UInt8}

theorem sound_make (name : Text) (first size : UInt64) (access : Access) {image : ByteArray}
    (hfits : image.size < 2 ^ 64) : (make name first size access image).Sound := by
  refine ⟨Buffer.sound_ofImage hfits ?_, limit_make name first size access image⟩
  split
  · exact UInt64.le_refl _
  · rename_i hlarge
    exact UInt64.not_lt.1 hlarge

/-- A region starts with its image and zeros after it. -/
theorem byte_make (name : Text) (first size : UInt64) (access : Access) {image : ByteArray}
    (hfits : image.size < 2 ^ 64) (a : UInt64) :
    (make name first size access image).byte a = Bytes.byteAt image (a - first).toNat :=
  (sound_make name first size access hfits).buffer.get_eq _

/-- Storage has room for a write that the region allows. -/
theorem Sound.writeFault?_eq (h : r.Sound) (hn : bytes.length < 2 ^ 64) (haddr : r.contains addr = true) :
    r.writeFault? addr bytes.length = r.fault? addr bytes.length Access.forWrite := by
  cases hfault : r.fault? addr bytes.length Access.forWrite with
  | some e => simp [writeFault?, hfault]
  | none =>
      have hreach := offset_add_le_size hn haddr hfault
      have hsize := r.size.toNat_lt
      have hstop : (addr - r.first + UInt64.ofNat bytes.length).toNat =
          (addr - r.first).toNat + bytes.length := by
        rw [UInt64.toNat_add, UInt64.toNat_ofNat']
        omega
      have hroom : ¬r.size < addr - r.first + UInt64.ofNat bytes.length := by
        rw [UInt64.lt_iff_toNat_lt, hstop]
        omega
      have hwrap : ¬addr - r.first + UInt64.ofNat bytes.length < addr - r.first := by
        rw [UInt64.lt_iff_toNat_lt, hstop]
        omega
      simp [writeFault?, hfault, Buffer.writeFault?, Buffer.growFault?, h.limit, hroom, hwrap]

/-- A write that the region allows is found at its addresses, and changes no other byte. -/
theorem Sound.put (h : r.Sound) (hn : bytes.length < 2 ^ 64) (haddr : r.contains addr = true)
    (hfault : r.fault? addr bytes.length Access.forWrite = none) :
    (r.put addr bytes).Sound ∧
      ∀ a, r.contains a = true →
        (r.put addr bytes).byte a = (bytes[(a - addr).toNat]?).getD (r.byte a) := by
  have hreach := offset_add_le_size hn haddr hfault
  rw [← h.limit] at hreach
  obtain ⟨hbuffer, hlimit, hinside, houtside⟩ := h.buffer.put hreach
  refine ⟨⟨hbuffer, hlimit.trans h.limit⟩, ?_⟩
  intro a ha
  obtain ⟨-, hfirst, -⟩ := contains_iff.1 haddr
  obtain ⟨-, hfirst', -⟩ := contains_iff.1 ha
  have hbase := UInt64.toNat_sub_of_le _ _ hfirst
  have hplace := UInt64.toNat_sub_of_le _ _ hfirst'
  have hsub := UInt64.toNat_sub a addr
  have hlt := a.toNat_lt
  rw [UInt64.le_iff_toNat_le] at hfirst hfirst'
  obtain ⟨-, -, hwrap, -⟩ := (fault?_eq_none_iff_contains hn haddr).1 hfault
  by_cases hin : (a - addr).toNat < bytes.length
  · have hoffset : (a - r.first).toNat = (addr - r.first).toNat + (a - addr).toNat := by omega
    rw [List.getElem?_eq_getElem hin, Option.getD_some, byte]
    simp only [Region.put]
    rw [hoffset, hinside _ hin]
    rfl
  · rw [List.getElem?_eq_none (by omega), Option.getD_none]
    exact houtside (a - r.first).toNat (by omega)

end Region

namespace Memory

/-! ### Permitted accesses -/

/-- An access is permitted if it has bytes, does not wrap around, and all its addresses are in one region
    that grants what is wanted. -/
def Permits (m : Memory) (addr : UInt64) (n : Nat) (wanted : Access) : Prop :=
  0 < n ∧ addr.toNat + n ≤ 2 ^ 64 ∧
    ∃ r ∈ m.regions, r.access.allows wanted = true ∧ ∀ i < n, r.contains (addr + UInt64.ofNat i) = true

instance (m : Memory) (addr : UInt64) (n : Nat) (wanted : Access) :
    Decidable (m.Permits addr n wanted) :=
  inferInstanceAs (Decidable (0 < n ∧ addr.toNat + n ≤ 2 ^ 64 ∧
    ∃ r ∈ m.regions, r.access.allows wanted = true ∧ ∀ i < n, r.contains (addr + UInt64.ofNat i) = true))

/-- No two regions share an address, and the storage of each is sound. -/
structure Sound (m : Memory) : Prop where
  apart : Apart m.regions
  storage : ∀ r ∈ m.regions, r.Sound

/-- The byte at an address, zero outside of every region. -/
def byte (m : Memory) (addr : UInt64) : UInt8 :=
  match m.region? addr with
  | some r => r.byte addr
  | none => 0

variable {m : Memory} {addr : UInt64} {n : Nat} {wanted : Access} {bytes : List UInt8}

theorem mem_of_region? {r : Region} (h : m.region? addr = some r) : r ∈ m.regions :=
  List.mem_of_find?_eq_some h

theorem Apart.region?_eq_some (h : Apart m.regions) {r : Region} (hr : r ∈ m.regions)
    (haddr : r.contains addr = true) : m.region? addr = some r := h.find?_eq_some hr haddr

/-- Only the region of its first address can permit an access. -/
theorem permits_iff (h : Apart m.regions) (hn : n < 2 ^ 64) : m.Permits addr n wanted ↔
    ∃ r, m.region? addr = some r ∧ r.fault? addr n wanted = none := by
  constructor
  · rintro ⟨hpos, hwrap, r, hr, hallows, hall⟩
    have haddr : r.contains addr = true := by simpa using hall 0 hpos
    exact ⟨r, h.region?_eq_some hr haddr,
      (Region.fault?_eq_none_iff_contains hn haddr).2 ⟨hallows, hpos, hwrap, hall⟩⟩
  · rintro ⟨r, hregion, hfault⟩
    obtain ⟨hallows, hpos, hwrap, hall⟩ :=
      (Region.fault?_eq_none_iff_contains hn (contains_of_region? hregion)).1 hfault
    exact ⟨hpos, hwrap, r, mem_of_region? hregion, hallows, hall⟩

/-- An access that is not permitted is told as a fault. -/
theorem fault?_eq (h : Apart m.regions) (hn : n < 2 ^ 64) :
    m.fault? addr n wanted = if m.Permits addr n wanted then none else some (.fault addr n wanted) := by
  rw [fault?]
  cases hregion : m.region? addr with
  | none =>
      have hrefused : ¬m.Permits addr n wanted := by
        rw [permits_iff h hn, hregion]
        rintro ⟨r, hr, -⟩
        cases hr
      rw [if_neg hrefused]
  | some r =>
      have hpermits : m.Permits addr n wanted ↔ r.fault? addr n wanted = none := by
        rw [permits_iff h hn, hregion]
        simp
      by_cases hfault : r.fault? addr n wanted = none
      · rw [if_pos (hpermits.2 hfault)]
        exact hfault
      · rw [if_neg (mt hpermits.1 hfault)]
        exact Region.fault?_eq_some_of_ne_none hfault

/-- The storage of a region never stands in the way of a store. -/
theorem Sound.storeFault?_eq (h : m.Sound) (hn : bytes.length < 2 ^ 64) :
    m.storeFault? addr bytes.length = m.fault? addr bytes.length Access.forWrite := by
  rw [storeFault?, fault?]
  cases hregion : m.region? addr with
  | none => rfl
  | some r =>
      exact (h.storage r (mem_of_region? hregion)).writeFault?_eq hn (contains_of_region? hregion)

theorem Sound.store_eq (h : m.Sound) (hn : bytes.length < 2 ^ 64) :
    m.store addr bytes = if m.Permits addr bytes.length Access.forWrite then .ok (m.put addr bytes)
      else .error (.fault addr bytes.length Access.forWrite) := by
  rw [store, h.storeFault?_eq hn, fault?_eq h.apart hn]
  by_cases hpermits : m.Permits addr bytes.length Access.forWrite
  · simp only [if_pos hpermits]
  · simp only [if_neg hpermits]

/-- Reading under a permission gives the bytes at the addresses. -/
theorem read_eq (h : Apart m.regions) (hn : n < 2 ^ 64) :
    m.read addr n wanted = if m.Permits addr n wanted
      then .ok ((List.range n).map fun i => m.byte (addr + UInt64.ofNat i))
      else .error (.fault addr n wanted) := by
  rw [read, fault?_eq h hn]
  by_cases hpermits : m.Permits addr n wanted
  · simp only [if_pos hpermits]
    obtain ⟨r, hregion, hfault⟩ := (permits_iff h hn).1 hpermits
    have hcontains := contains_of_region? hregion
    obtain ⟨-, -, hwrap, hall⟩ := (Region.fault?_eq_none_iff_contains hn hcontains).1 hfault
    rw [get, hregion]
    simp only [Region.get, Buffer.read]
    refine congrArg _ (List.map_congr_left ?_)
    intro i hi
    have hin := List.mem_range.1 hi
    have hplace : (addr + UInt64.ofNat i - r.first).toNat = (addr - r.first).toNat + i := by
      obtain ⟨-, hfirst, -⟩ := Region.contains_iff.1 hcontains
      obtain ⟨-, hfirst', -⟩ := Region.contains_iff.1 (hall i hin)
      rw [UInt64.toNat_sub_of_le _ _ hfirst, UInt64.toNat_sub_of_le _ _ hfirst']
      rw [UInt64.le_iff_toNat_le] at hfirst
      rw [UInt64.toNat_add, UInt64.toNat_ofNat']
      omega
    rw [byte, h.region?_eq_some (mem_of_region? hregion) (hall i hin)]
    simp only [Region.byte, hplace]
  · simp only [if_neg hpermits]

/-- A load that is permitted gives the bytes at its addresses. -/
theorem load_eq (h : Apart m.regions) (hn : n < 2 ^ 64) :
    m.load addr n = if m.Permits addr n Access.forRead
      then .ok ((List.range n).map fun i => m.byte (addr + UInt64.ofNat i))
      else .error (.fault addr n Access.forRead) := read_eq h hn

/-! ### Stores -/

/-- A heap that is resized may fill its new size. -/
theorem limit_resize (heap : Region) (next : UInt64) :
    (resize heap next).buffer.limit = (resize heap next).size := by
  simp [resize, Region.size]

/-- The region after a store, which changes it if it has the address. -/
def stored (addr : UInt64) (bytes : List UInt8) (r : Region) : Region :=
  if r.contains addr then r.put addr bytes else r

theorem stored_contains (r : Region) (a : UInt64) : (stored addr bytes r).contains a = r.contains a := by
  rw [stored]
  split <;> rfl

theorem stored_overlaps (r other : Region) :
    (stored addr bytes r).overlaps (stored addr bytes other) = r.overlaps other := by
  rw [stored, stored]
  split <;> split <;> rfl

theorem stored_access (r : Region) : (stored addr bytes r).access = r.access := by
  rw [stored]
  split <;> rfl

/-- What changes in a list with its first qualifying element changed is the element that is found. -/
theorem mem_modifyFirst {α : Type} {p : α → Bool} {f : α → α} {list : List α} {a : α}
    (h : a ∈ modifyFirst p f list) : a ∈ list ∨ ∃ b, list.find? p = some b ∧ a = f b := by
  induction list with
  | nil => cases h
  | cons head rest ih =>
      by_cases hhead : p head = true
      · rw [modifyFirst, if_pos hhead] at h
        rcases List.mem_cons.1 h with rfl | hrest
        · exact .inr ⟨head, List.find?_cons_of_pos hhead, rfl⟩
        · exact .inl (List.mem_cons_of_mem _ hrest)
      · rw [modifyFirst, if_neg hhead] at h
        rcases List.mem_cons.1 h with rfl | hrest
        · exact .inl List.mem_cons_self
        · rcases ih hrest with hold | ⟨b, hb, hchanged⟩
          · exact .inl (List.mem_cons_of_mem _ hold)
          · exact .inr ⟨b, by rwa [List.find?_cons_of_neg hhead], hchanged⟩

/-- Changing the region of an address changes every region that has it, since only one does. -/
theorem modifyFirst_eq_map {regions : List Region} (h : Apart regions) :
    modifyFirst (fun r => r.contains addr) (fun r => r.put addr bytes) regions =
      regions.map (stored addr bytes) := by
  induction regions with
  | nil => rfl
  | cons head rest ih =>
      obtain ⟨hhead, hrest⟩ := List.pairwise_cons.1 h
      by_cases hin : head.contains addr = true
      · have hothers : ∀ r ∈ rest, stored addr bytes r = r := by
          intro r hr
          by_cases hboth : r.contains addr = true
          · rw [not_contains_of_overlaps (hhead r hr) hboth] at hin
            cases hin
          · rw [stored, if_neg hboth]
        rw [modifyFirst, if_pos hin, List.map_cons, stored, if_pos hin, List.map_congr_left hothers,
          List.map_id']
      · rw [modifyFirst, if_neg hin, List.map_cons, stored, if_neg hin, ih hrest]

theorem regions_put (h : Apart m.regions) :
    (m.put addr bytes).regions = m.regions.map (stored addr bytes) := modifyFirst_eq_map h

theorem region?_put (h : Apart m.regions) (a : UInt64) :
    (m.put addr bytes).region? a = (m.region? a).map (stored addr bytes) := by
  have hsame : (fun r : Region => r.contains a) ∘ stored addr bytes = fun r => r.contains a := by
    funext r
    exact stored_contains r a
  rw [region?, regions_put h, List.find?_map, hsame, region?]

/-- A store moves no region and changes no permission. -/
theorem permits_put (h : Apart m.regions) {other : UInt64} :
    (m.put addr bytes).Permits other n wanted ↔ m.Permits other n wanted := by
  simp only [Permits, regions_put h, List.mem_map, exists_exists_and_eq_and, stored_access, stored_contains]

/-- A store that is permitted keeps the storage sound. -/
theorem Sound.put (h : m.Sound) (hn : bytes.length < 2 ^ 64)
    (hpermits : m.Permits addr bytes.length Access.forWrite) : (m.put addr bytes).Sound := by
  obtain ⟨written, hregion, hfault⟩ := (permits_iff h.apart hn).1 hpermits
  constructor
  · rw [Apart, regions_put h.apart, List.pairwise_map]
    refine h.apart.imp ?_
    intro r later hlater
    rw [stored_overlaps]
    exact hlater
  · rw [regions_put h.apart]
    intro r hr
    obtain ⟨before, hbefore, rfl⟩ := List.mem_map.1 hr
    by_cases hin : before.contains addr = true
    · obtain rfl : before = written :=
        Option.some.inj ((h.apart.region?_eq_some hbefore hin).symm.trans hregion)
      rw [stored, if_pos hin]
      exact ((h.storage before hbefore).put hn hin hfault).1
    · rw [stored, if_neg hin]
      exact h.storage before hbefore

/-- A store that is permitted is found at its addresses, and changes no other byte. -/
theorem Sound.byte_put (h : m.Sound) (hn : bytes.length < 2 ^ 64)
    (hpermits : m.Permits addr bytes.length Access.forWrite) (a : UInt64) :
    (m.put addr bytes).byte a = (bytes[(a - addr).toNat]?).getD (m.byte a) := by
  obtain ⟨written, hregion, hfault⟩ := (permits_iff h.apart hn).1 hpermits
  have hcontains := contains_of_region? hregion
  obtain ⟨-, -, -, hall⟩ := (Region.fault?_eq_none_iff_contains hn hcontains).1 hfault
  -- an address that is written is one of the region that was written to
  have hwritten : (a - addr).toNat < bytes.length → m.region? a = some written := by
    intro hin
    have hplace := hall _ hin
    rw [UInt64.ofNat_toNat, UInt64.add_comm, UInt64.sub_add_cancel] at hplace
    exact h.apart.region?_eq_some (mem_of_region? hregion) hplace
  rw [byte, byte, region?_put h.apart]
  by_cases hsame : m.region? a = some written
  · rw [hsame]
    simp only [Option.map_some, stored, hcontains, if_true]
    exact ((h.storage written (mem_of_region? hregion)).put hn hcontains hfault).2 a
      (contains_of_region? hsame)
  · rw [List.getElem?_eq_none (Nat.not_lt.1 (mt hwritten hsame)), Option.getD_none]
    cases hother : m.region? a with
    | none => rfl
    | some r =>
        have hapart : r.contains addr ≠ true := by
          intro hin
          rw [h.apart.region?_eq_some (mem_of_region? hother) hin] at hregion
          rw [hother, hregion] at hsame
          exact hsame rfl
        simp only [Option.map_some, stored, if_neg hapart]

/-! ### Memories that are laid out -/

/-- The byte of the image that a region starts with. -/
def Placement.byte? (p : Placement) (a : UInt64) : Option UInt8 :=
  match p with
  | .region name first size access image _ =>
    if (Region.make name first size access image).contains a then (Bytes.toList image)[(a - first).toNat]?
    else none
  | .stack _ | .heap _ => none

/-- A stack is in storage from the start, and all zero. -/
theorem sound_stackRegion (size : UInt64) :
    (stackRegion size).Sound ∧ ∀ a, (stackRegion size).byte a = 0 := by
  have hmade := Region.sound_make (Text.ofString "stack") (stackTop - Bytes.roundUp size heapAlign)
    (Bytes.roundUp size heapAlign) Access.rw (by decide : ByteArray.empty.size < 2 ^ 64)
  obtain ⟨hbuffer, hlimit, -, hbytes⟩ := hmade.buffer.extend (UInt64.le_refl _)
  refine ⟨⟨hbuffer, hlimit.trans hmade.limit⟩, ?_⟩
  intro a
  have hzero : Bytes.byteAt ByteArray.empty (a - (stackRegion size).first).toNat = 0 :=
    Bytes.byteAt_of_le (Nat.zero_le _)
  exact (hbuffer.get_eq _).trans ((hbytes _).trans hzero)

theorem sound_placed (m : Memory) (p : Placement) : (m.placed p).Sound := by
  cases p with
  | region name first size access image fits => exact Region.sound_make name first size access fits
  | stack size => exact (sound_stackRegion size).1
  | heap gap => exact Region.sound_make _ _ _ _ (by decide : ByteArray.empty.size < 2 ^ 64)

/-- A region that is added holds its image, and zeros where the image has no byte. -/
theorem byte_placed (m : Memory) (p : Placement) {a : UInt64} (ha : (m.placed p).contains a = true) :
    (m.placed p).byte a = (p.byte? a).getD 0 := by
  cases p with
  | region name first size access image fits =>
      rw [placed] at ha ⊢
      rw [Region.byte_make name first size access fits, Placement.byte?, if_pos ha, Bytes.byteAt_eq_getD]
  | stack size => exact (sound_stackRegion size).2 a
  | heap gap =>
      have hnonempty := (Region.contains_iff.1 ha).1
      exact absurd (size_heapRegion m gap) hnonempty

theorem contains_of_byte? {p : Placement} {a : UInt64} {b : UInt8} (h : p.byte? a = some b) :
    (m.placed p).contains a = true := by
  cases p with
  | region name first size access image fits =>
      rw [Placement.byte?] at h
      split at h
      · assumption
      · cases h
  | stack size => cases h
  | heap gap => cases h

/-- The memory is sound, and has the bytes of a partial map and zeros where the map has none. -/
structure Shows (m : Memory) (f : UInt64 → Option UInt8) : Prop where
  sound : m.Sound
  byte : ∀ a, m.byte a = (f a).getD 0
  covered : ∀ a b, f a = some b → m.region? a ≠ none

/-- An address is looked up in the region that is added after all others. -/
theorem region?_place {p : Placement} {after : Memory} (h : m.place p = .ok after) (a : UInt64) :
    after.region? a =
      (m.region? a).or (if (m.placed p).contains a then some (m.placed p) else none) := by
  obtain ⟨hregions, -⟩ := place_eq_ok h
  rw [region?, hregions, List.find?_append, List.find?_singleton, region?]

/-- A region that is added adds the bytes of its image. -/
theorem Shows.place {f : UInt64 → Option UInt8} (h : m.Shows f) {p : Placement} {after : Memory}
    (hplace : m.place p = .ok after) : after.Shows fun a => (f a).or (p.byte? a) := by
  obtain ⟨hregions, hapart, -⟩ := place_eq_ok hplace
  have hfind := region?_place hplace
  -- an address of the new region is in no other
  have hfree : ∀ a, (m.placed p).contains a = true → m.region? a = none := by
    intro a ha
    rw [region?, List.find?_eq_none]
    intro r hr
    simp [not_contains_of_overlaps (hapart r hr) ha]
  refine ⟨⟨?_, ?_⟩, ?_, ?_⟩
  · rw [hregions]
    exact h.sound.apart.snoc hapart
  · intro r hr
    rw [hregions, List.mem_append, List.mem_singleton] at hr
    rcases hr with hr | rfl
    · exact h.sound.storage r hr
    · exact sound_placed m p
  · intro a
    have hbefore := h.byte a
    rw [Memory.byte] at hbefore ⊢
    rw [hfind a]
    by_cases ha : (m.placed p).contains a = true
    · have hnone : f a = none := by
        cases hmap : f a with
        | none => rfl
        | some b => exact absurd (hfree a ha) (h.covered a b hmap)
      rw [hfree a ha, if_pos ha, hnone]
      exact byte_placed m p ha
    · have hnone : p.byte? a = none := by
        cases hmap : p.byte? a with
        | none => rfl
        | some b => exact absurd (contains_of_byte? hmap) ha
      rw [if_neg ha, Option.or_none, hnone, Option.or_none]
      exact hbefore
  · intro a b hmap
    rw [hfind a]
    rcases Option.or_eq_some_iff.1 hmap with hold | ⟨-, hnew⟩
    · have hfound := h.covered a b hold
      cases hregion : m.region? a with
      | none => exact absurd hregion hfound
      | some r => simp
    · rw [if_pos (contains_of_byte? hnew)]
      simp

/-- A memory that is laid out shows the images of the regions that were added. -/
theorem shows_built (placements : List Placement) :
    Shows (placements.foldl (attempt place) {})
      fun a => (accepted place {} placements).findSome? (·.byte? a) := by
  induction placements using List.reverseRecOn with
  | nil => exact ⟨⟨List.Pairwise.nil, by simp⟩, fun _ => rfl, by simp [accepted]⟩
  | append_singleton rest p ih =>
      rw [List.foldl_concat]
      cases hplace : place (rest.foldl (attempt place) {}) p with
      | ok after =>
          rw [attempt_ok hplace]
          simpa [accepted_concat_ok hplace, List.findSome?_append] using ih.place hplace
      | error e =>
          rw [attempt_error hplace, accepted_concat_error hplace]
          exact ih

/-! ### Runs of stores -/

/-- Bytes to be stored at an address. A number is stored as its `numberBytes`. -/
structure Write where
  addr : UInt64
  bytes : List UInt8
  fits : bytes.length < 2 ^ 64

def write (m : Memory) (w : Write) : Except Error Memory := m.store w.addr w.bytes

/-- The byte that is stored at an address. -/
def Write.byte? (w : Write) (a : UInt64) : Option UInt8 := w.bytes[(a - w.addr).toNat]?

/-- The byte of the last store to an address, or of the image that is laid out there, or zero. -/
def byteLeft (placements : List Placement) (writes : List Write) (a : UInt64) : UInt8 :=
  ((writes.reverse.findSome? (·.byte? a)).or (placements.findSome? (·.byte? a))).getD 0

/-- Stores keep memory sound and the regions where they are, and leave the last byte at each address. -/
theorem Sound.stores {start : Memory} (h : start.Sound) (writes : List Write) :
    let m := writes.foldl (attempt write) start
    m.Sound ∧ (∀ addr n wanted, m.Permits addr n wanted ↔ start.Permits addr n wanted) ∧
      ∀ a, m.byte a =
        ((accepted write start writes).reverse.findSome? (·.byte? a)).getD (start.byte a) := by
  induction writes using List.reverseRecOn with
  | nil => exact ⟨h, fun _ _ _ => Iff.rfl, fun _ => rfl⟩
  | append_singleton rest w ih =>
      obtain ⟨hsound, hpermits, hbytes⟩ := ih
      simp only [List.foldl_concat, accepted_append]
      generalize rest.foldl (attempt write) start = m at hsound hpermits hbytes ⊢
      have hwrite : m.write w = _ := hsound.store_eq w.fits
      by_cases hin : m.Permits w.addr w.bytes.length Access.forWrite
      · rw [if_pos hin] at hwrite
        rw [attempt_ok hwrite]
        refine ⟨hsound.put w.fits hin, ?_, ?_⟩
        · intro addr n wanted
          rw [permits_put hsound.apart, hpermits]
        · intro a
          rw [hsound.byte_put w.fits hin, hbytes]
          simp only [accepted, hwrite, List.reverse_append, List.reverse_singleton, List.singleton_append,
            List.findSome?_cons, Write.byte?]
          cases w.bytes[(a - w.addr).toNat]? <;> rfl
      · rw [if_neg hin] at hwrite
        rw [attempt_error hwrite]
        refine ⟨hsound, hpermits, ?_⟩
        intro a
        simp only [accepted, hwrite, List.append_nil, hbytes]

/-- However a memory was laid out and whatever was stored since, a store and a load succeed exactly if
    their access is permitted, and a load gives the byte that was left at each of its addresses. -/
theorem load_store_bytes (placements : List Placement) (writes : List Write) :
    let start := placements.foldl (attempt place) {}
    let m := writes.foldl (attempt write) start
    (∀ w : Write, (m.write w).map (fun _ => ()) =
      if start.Permits w.addr w.bytes.length Access.forWrite then .ok ()
      else .error (.fault w.addr w.bytes.length Access.forWrite)) ∧
    (∀ (addr n : UInt64), m.load addr n.toNat =
      if start.Permits addr n.toNat Access.forRead then
        .ok ((List.range n.toNat).map fun i => byteLeft (accepted place {} placements)
          (accepted write start writes) (addr + UInt64.ofNat i))
      else .error (.fault addr n.toNat Access.forRead)) := by
  intro start m
  have hbuilt := shows_built placements
  obtain ⟨hsound, hpermits, hbytes⟩ := hbuilt.sound.stores writes
  constructor
  · intro w
    have hwrite : m.write w = _ := hsound.store_eq w.fits
    rw [hwrite]
    by_cases hin : start.Permits w.addr w.bytes.length Access.forWrite
    · rw [if_pos hin, if_pos ((hpermits _ _ _).2 hin)]
      rfl
    · rw [if_neg hin, if_neg (mt (hpermits _ _ _).1 hin)]
      rfl
  · intro addr n
    rw [load_eq hsound.apart n.toNat_lt]
    by_cases hin : start.Permits addr n.toNat Access.forRead
    · rw [if_pos hin, if_pos ((hpermits _ _ _).2 hin)]
      refine congrArg _ (List.map_congr_left ?_)
      intro i _
      rw [hbytes, hbuilt.byte, byteLeft, Option.getD_or]
    · rw [if_neg hin, if_neg (mt (hpermits _ _ _).1 hin)]

end Memory

end VectorRisc
