/-
Module: VectorRisc.Proofs.Memory.Numbers
Layer: Proofs
Purpose: Numbers that stand one above the other in a range of addresses that can be read and written. What
  is stored at one address is loaded from it again, and what is read elsewhere stays.
Imports: Mathlib.Tactic, VectorRisc.Proofs.Memory.Contents
Trusted boundary: none
Main exports: Memory.Within, Memory.Open, Memory.Open.permits, Memory.Keeps, Memory.Keeps.loadNumber_eq,
  Memory.Sound.keeps_put, Memory.Sound.read_put, Memory.Stacked
Open obligations: none
-/
import Mathlib.Tactic
import VectorRisc.Proofs.Memory.Contents

namespace VectorRisc

namespace Memory

variable {m after : Memory} {base addr value : UInt64} {size n : Nat} {wanted : Access}

/-! ### Ranges of addresses -/

/-- The address is one of `size` from `base` on. -/
def Within (base : UInt64) (size : Nat) (addr : UInt64) : Prop :=
  ∃ i < size, addr = base + UInt64.ofNat i

theorem within_iff (hsize : size ≤ 2 ^ 64) : Within base size addr ↔ (addr - base).toNat < size := by
  constructor
  · rintro ⟨i, hi, rfl⟩
    rw [UInt64.add_comm, UInt64.add_sub_cancel, UInt64.toNat_ofNat']
    omega
  · intro h
    refine ⟨(addr - base).toNat, h, ?_⟩
    rw [UInt64.ofNat_toNat, UInt64.add_comm, UInt64.sub_add_cancel]

theorem Within.mono {large : Nat} (h : Within base size addr) (hle : size ≤ large) :
    Within base large addr := by
  obtain ⟨i, hi, hplace⟩ := h
  exact ⟨i, hi.trans_le hle, hplace⟩

/-- A range in a longer one. -/
theorem Within.inner {offset : Nat} (h : Within (base + UInt64.ofNat offset) n addr)
    (hle : offset + n ≤ size) : Within base size addr := by
  obtain ⟨i, hi, rfl⟩ := h
  refine ⟨offset + i, by omega, ?_⟩
  rw [UInt64.ofNat_add, UInt64.add_assoc]

/-- A region can be read and written at `size` addresses from `base` on. -/
def Open (m : Memory) (base : UInt64) (size : Nat) : Prop :=
  ∃ r ∈ m.regions, r.access.allows Access.rw = true ∧
    ∀ i < size, r.contains (base + UInt64.ofNat i) = true

namespace Open

/-- No region has both the last address and the first, so that the addresses do not wrap around. -/
theorem add_le (h : m.Open base size) : base.toNat + size ≤ 2 ^ 64 := by
  obtain ⟨r, -, -, hall⟩ := h
  have hbase := base.toNat_lt
  by_contra hwraps
  have hlast := Region.contains_iff.1 (hall (2 ^ 64 - 1 - base.toNat) (by omega))
  have hfirst := Region.contains_iff.1 (hall (2 ^ 64 - base.toNat) (by omega))
  have hsize : (r.last + 1 - r.first).toNat ≠ 0 := fun hzero => hlast.1 (UInt64.toNat_inj.1 hzero)
  have hend := hlast.2.2
  have hstart := hfirst.2.1
  have hbound := r.last.toNat_lt
  rw [UInt64.le_iff_toNat_le] at hend hstart
  simp only [UInt64.toNat_sub, UInt64.toNat_add, UInt64.toNat_ofNat', UInt64.toNat_one] at hend hstart hsize
  omega

theorem mono {small : Nat} (h : m.Open base size) (hle : small ≤ size) : m.Open base small := by
  obtain ⟨r, hr, hallows, hall⟩ := h
  exact ⟨r, hr, hallows, fun i hi => hall i (hi.trans_le hle)⟩

theorem inner {offset : Nat} (h : m.Open base size) (hle : offset + n ≤ size) :
    m.Open (base + UInt64.ofNat offset) n := by
  obtain ⟨r, hr, hallows, hall⟩ := h
  refine ⟨r, hr, hallows, ?_⟩
  intro i hi
  rw [UInt64.add_assoc, ← UInt64.ofNat_add]
  exact hall (offset + i) (by omega)

/-- What is open can be loaded from and stored to. -/
theorem permits (h : m.Open base size) (hsize : 0 < size) :
    m.Permits base size Access.forRead ∧ m.Permits base size Access.forWrite := by
  have hwrap := h.add_le
  obtain ⟨r, hr, hallows, hall⟩ := h
  simp only [Access.allows, Access.rw, Bool.not_true, Bool.or_false, Bool.not_false, Bool.or_true,
    Bool.and_true, Bool.and_eq_true] at hallows
  refine ⟨⟨hsize, hwrap, r, hr, ?_, hall⟩, ⟨hsize, hwrap, r, hr, ?_, hall⟩⟩
  · simp [Access.allows, Access.forRead, hallows.1]
  · simp [Access.allows, Access.forWrite, hallows.2]

theorem put (h : m.Open base size) (hapart : Apart m.regions) (addr : UInt64) (bytes : List UInt8) :
    (m.put addr bytes).Open base size := by
  obtain ⟨r, hr, hallows, hall⟩ := h
  refine ⟨stored addr bytes r, ?_, ?_, ?_⟩
  · rw [regions_put hapart]
    exact List.mem_map_of_mem hr
  · rwa [stored_access]
  · intro i hi
    rw [stored_contains]
    exact hall i hi

end Open

/-! ### What is read after a store -/

variable {bytes : List UInt8}

theorem Sound.byte_put_of_not_within (h : m.Sound) (hn : bytes.length < 2 ^ 64)
    (hpermits : m.Permits addr bytes.length Access.forWrite) {a : UInt64}
    (ha : ¬Within addr bytes.length a) : (m.put addr bytes).byte a = m.byte a := by
  rw [within_iff hn.le] at ha
  rw [h.byte_put hn hpermits, List.getElem?_eq_none (by omega), Option.getD_none]

/-- A store makes no difference to what is read elsewhere. -/
theorem Sound.read_put (h : m.Sound) (hlength : bytes.length < 2 ^ 64)
    (hpermits : m.Permits addr bytes.length Access.forWrite) {other : UInt64} (hn : n < 2 ^ 64)
    (hapart : ∀ i < n, ¬Within addr bytes.length (other + UInt64.ofNat i)) :
    (m.put addr bytes).read other n wanted = m.read other n wanted := by
  have hbytes : ((List.range n).map fun i => (m.put addr bytes).byte (other + UInt64.ofNat i)) =
      (List.range n).map fun i => m.byte (other + UInt64.ofNat i) := by
    apply List.map_congr_left
    intro i hi
    exact h.byte_put_of_not_within hlength hpermits (hapart i (List.mem_range.1 hi))
  rw [read_eq (h.put hlength hpermits).apart hn, read_eq h.apart hn, hbytes]
  simp only [permits_put h.apart]

/-! ### Numbers -/

theorem length_numberBytes (width : Nat) (value : UInt64) : (numberBytes width value).length = width :=
  Bytes.length_ofNat width value.toNat

/-- The bytes of a number stand at an address. -/
def Keeps (m : Memory) (addr value : UInt64) : Prop :=
  ∀ i < 8, m.byte (addr + UInt64.ofNat i) = ((numberBytes 8 value)[i]?).getD 0

theorem Keeps.congr (h : m.Keeps addr value)
    (hsame : ∀ i < 8, after.byte (addr + UInt64.ofNat i) = m.byte (addr + UInt64.ofNat i)) :
    after.Keeps addr value :=
  fun i hi => (hsame i hi).trans (h i hi)

/-- A number that was stored is at its address. -/
theorem Sound.keeps_put (h : m.Sound) (hpermits : m.Permits addr 8 Access.forWrite) (value : UInt64) :
    (m.put addr (numberBytes 8 value)).Keeps addr value := by
  have hlength := length_numberBytes 8 value
  intro i hi
  rw [← hlength] at hpermits
  have hplace : (addr + UInt64.ofNat i - addr).toNat = i := by
    rw [UInt64.add_comm, UInt64.add_sub_cancel, UInt64.toNat_ofNat']
    omega
  rw [h.byte_put (by omega) hpermits, hplace, List.getElem?_eq_getElem (by omega), Option.getD_some,
    Option.getD_some]

/-- A number is loaded from its address. -/
theorem Keeps.loadNumber_eq (h : m.Keeps addr value) (hapart : Apart m.regions)
    (hpermits : m.Permits addr 8 Access.forRead) : m.loadNumber addr 8 = .ok value := by
  have hbytes : ((List.range 8).map fun i => m.byte (addr + UInt64.ofNat i)) = numberBytes 8 value := by
    have hlength := length_numberBytes 8 value
    apply List.ext_getElem
    · simp [hlength]
    · intro i hi hi'
      rw [List.getElem_map, List.getElem_range, h i (by omega), List.getElem?_eq_getElem hi',
        Option.getD_some]
  rw [loadNumber, load_eq hapart (by norm_num), if_pos hpermits, hbytes]
  simp [Except.map, numberBytes]

/-- Numbers stand one above the other, the first one at an address. -/
def Stacked (m : Memory) : UInt64 → List UInt64 → Prop
  | _, [] => True
  | addr, value :: values => m.Keeps addr value ∧ m.Stacked (addr + 8) values

/-- One more number above the others. -/
theorem Stacked.concat {values : List UInt64} (h : m.Stacked addr values)
    (hlast : m.Keeps (addr + UInt64.ofNat (8 * values.length)) value) :
    m.Stacked addr (values ++ [value]) := by
  induction values generalizing addr with
  | nil =>
      rw [List.length_nil, Nat.mul_zero] at hlast
      have hhere : addr + UInt64.ofNat 0 = addr := UInt64.add_zero addr
      rw [hhere] at hlast
      exact ⟨hlast, trivial⟩
  | cons v values ih =>
      have hplace : addr + 8 + UInt64.ofNat (8 * values.length) =
          addr + UInt64.ofNat (8 * (v :: values).length) := by
        rw [List.length_cons, Nat.mul_succ, Nat.add_comm, UInt64.ofNat_add, UInt64.add_assoc]
        rfl
      exact ⟨h.1, ih h.2 (by rwa [hplace])⟩

/-- Numbers stay where their bytes stay. -/
theorem Stacked.congr {values : List UInt64} (h : m.Stacked addr values)
    (hsame : ∀ a, Within addr (8 * values.length) a → after.byte a = m.byte a) :
    after.Stacked addr values := by
  induction values generalizing addr with
  | nil => trivial
  | cons v values ih =>
      rw [List.length_cons] at hsame
      constructor
      · apply h.1.congr
        intro i hi
        exact hsame _ ⟨i, by omega, rfl⟩
      · apply ih h.2
        intro a ha
        have hplace : addr + 8 = addr + UInt64.ofNat 8 := rfl
        rw [hplace] at ha
        exact hsame a (ha.inner (by omega))

end Memory

end VectorRisc
