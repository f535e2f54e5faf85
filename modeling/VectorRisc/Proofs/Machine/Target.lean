/-
Module: VectorRisc.Proofs.Machine.Target
Layer: Proofs
Purpose: The linker and the machine agree on what an immediate refers to. The word count of a branch
  leads from the next instruction to its target, the word address of a jump completes the region of the
  instruction, and the four slices of an address make it up again.
Imports: Mathlib.Tactic, VectorRisc.Machine.Clock, VectorRisc.Proofs.Object.Patches
Trusted boundary: none
Main exports: signExtend_wordCount, Patch.Reaches.branch_eq, Patch.Reaches.jumpTarget_eq,
  Machine.sliceOf_withSlice, Machine.withSlice_zero, eq_of_sliceOf
Open obligations: none
-/
import Mathlib.Tactic
import VectorRisc.Machine.Clock
import VectorRisc.Proofs.Object.Patches

namespace VectorRisc

/-! ### Word counts of branches -/

/-- The linker masks a word count, and the word that takes it does so again. -/
theorem toNat_wordCount (value : UInt64) :
    ((value.toUInt16 &&& 0x7fff) &&& 0x7fff).toUInt64.toNat = value.toNat % 2 ^ 15 := by
  have hmask : (0x7fff : UInt16).toNat = 2 ^ 15 - 1 := rfl
  rw [UInt16.toNat_toUInt64, UInt16.toNat_and, UInt16.toNat_and, hmask,
    Nat.and_two_pow_sub_one_eq_mod, Nat.and_two_pow_sub_one_eq_mod, UInt64.toNat_toUInt16]
  omega

/-- A word count within the reach of a branch is read back from its field. -/
theorem signExtend_wordCount {count : Int64} (hlow : -16384 ≤ count) (hhigh : count < 16384) :
    signExtend ((count.toUInt64.toUInt16 &&& 0x7fff) &&& 0x7fff).toUInt64 15 = count := by
  have hleast : -16384 ≤ count.toInt := by simpa [Int64.le_iff_toInt_le] using hlow
  have hmost : count.toInt < 16384 := by simpa [Int64.lt_iff_toInt_lt] using hhigh
  have hnat := toNat_toUInt64 count
  apply Int64.toInt_inj.1
  rw [toInt_signExtend (by rw [toNat_wordCount]; omega), toNat_wordCount]
  split <;> omega

/-- A distance in whole words is the count of its words. -/
theorem words_mul_four {delta : Int64} (haligned : delta % 4 = 0) : delta / 4 * 4 = delta := by
  have hrem : delta.toInt.tmod (Int64.toInt 4) = 0 := by
    rw [← Int64.toInt_mod, haligned, Int64.toInt_zero]
  have hsum := Int.mul_tdiv_add_tmod delta.toInt (Int64.toInt 4)
  rw [hrem, Int.add_zero, Int.mul_comm] at hsum
  apply Int64.toInt_inj.1
  rw [Int64.toInt_mul, Int64.toInt_div, Int.bmod_mul_bmod, hsum, Int64.toInt_bmod]

/-- The distance that a patched branch goes, from the next instruction, ends at its target. -/
theorem Patch.Reaches.branch_eq {pc addr : UInt64} (h : Patch.branch.Reaches pc addr) :
    let count := ((addr - (pc + 4)).toInt64 / 4).toUInt64.toUInt16 &&& 0x7fff
    pc + 4 + (signExtend (count &&& 0x7fff).toUInt64 15 * 4).toUInt64 = addr := by
  obtain ⟨haligned, hlow, hhigh⟩ := h
  intro count
  rw [signExtend_wordCount hlow hhigh, words_mul_four haligned, UInt64.toUInt64_toInt64,
    UInt64.add_comm, UInt64.sub_add_cancel]

/-! ### Bits -/

/-- The bits of a mask of low bits. -/
theorem getLsbD_mask {w : Nat} (hw : w ≤ 64) (i : Nat) :
    (UInt64.ofNat (2 ^ w - 1)).toBitVec.getLsbD i = decide (i < w) := by
  rw [UInt64.toBitVec_ofNat', BitVec.getLsbD_ofNat, Nat.testBit_two_pow_sub_one]
  by_cases hi : i < w
  · simp only [hi, decide_true, Bool.and_true, decide_eq_true_eq]
    omega
  · simp [hi]

theorem eq_of_getLsbD {a b : UInt64} (h : ∀ i < 64, a.toBitVec.getLsbD i = b.toBitVec.getLsbD i) :
    a = b :=
  UInt64.toBitVec_inj.1 (BitVec.eq_of_getLsbD_eq h)

/-! ### Word addresses of jumps -/

/-- The field of a jump is the low bits of the word address. -/
theorem toUInt64_wordAddress (addr : UInt64) :
    ((addr >>> 2).toUInt32 &&& Word.addrMaskJ).toUInt64 = (addr >>> 2) &&& UInt64.ofNat (2 ^ 25 - 1) := by
  have hmask : Word.addrMaskJ.toNat = 2 ^ 25 - 1 := rfl
  have hmask64 : (UInt64.ofNat (2 ^ 25 - 1)).toNat = 2 ^ 25 - 1 := rfl
  apply UInt64.toNat_inj.1
  rw [UInt32.toNat_toUInt64, UInt32.toNat_and, UInt64.toNat_and, hmask, hmask64,
    Nat.and_two_pow_sub_one_eq_mod, Nat.and_two_pow_sub_one_eq_mod, UInt64.toNat_toUInt32]
  omega

/-- The low bits of an address on a word are zero. -/
theorem getLsbD_of_aligned {addr : UInt64} (h : addr &&& 3 = 0) {i : Nat} (hi : i < 2) :
    addr.toBitVec.getLsbD i = false := by
  have hmask : (3 : UInt64) = UInt64.ofNat (2 ^ 2 - 1) := rfl
  have hbit := congrArg (fun v : UInt64 => v.toBitVec.getLsbD i) h
  simp only [hmask, UInt64.toBitVec_and, BitVec.getLsbD_and, getLsbD_mask (by norm_num : 2 ≤ 64), hi,
    decide_true, Bool.and_true] at hbit
  exact hbit.trans BitVec.getLsbD_zero

/-- Addresses in one region have the same high bits. -/
theorem getLsbD_of_region {pc addr : UInt64} (h : Linker.region pc = Linker.region addr) {i : Nat}
    (hlow : 27 ≤ i) (hi : i < 64) : pc.toBitVec.getLsbD i = addr.toBitVec.getLsbD i := by
  have hmask : (0x1ffffff : UInt64) = UInt64.ofNat (2 ^ 25 - 1) := rfl
  have hshift (v : UInt64) : (v >>> 2).toBitVec = v.toBitVec >>> 2 := rfl
  have hplace : 2 + (i - 2) = i := by omega
  have hwidth : i - 2 < 64 := by omega
  have hfield : ¬i - 2 < 25 := by omega
  have hbit := congrArg (fun v : UInt64 => v.toBitVec.getLsbD (i - 2)) h
  simpa only [Linker.region, hmask, UInt64.toBitVec_and, UInt64.toBitVec_not, BitVec.getLsbD_and,
    BitVec.getLsbD_not, hshift, BitVec.getLsbD_ushiftRight, getLsbD_mask (by norm_num : 25 ≤ 64), hplace,
    hwidth, hfield, decide_true, decide_false, Bool.not_false, Bool.and_true] using hbit

/-- The address that a patched jump goes to is its target. -/
theorem Patch.Reaches.jumpTarget_eq {pc addr : UInt64} (h : Patch.jump.Reaches pc addr) :
    Machine.jumpTarget pc (((addr >>> 2).toUInt32 &&& Word.addrMaskJ).toUInt64 <<< 2).toInt64 =
      addr := by
  obtain ⟨haligned, hregion⟩ := h
  have hmask : Machine.jumpMask = UInt64.ofNat (2 ^ 27 - 1) := rfl
  have hright (v : UInt64) : (v >>> 2).toBitVec = v.toBitVec >>> 2 := rfl
  have hleft (v : UInt64) : (v <<< 2).toBitVec = v.toBitVec <<< 2 := rfl
  apply eq_of_getLsbD
  intro i hi
  simp only [toUInt64_wordAddress, Machine.jumpTarget, hmask, UInt64.toUInt64_toInt64,
    UInt64.toBitVec_or, UInt64.toBitVec_and, UInt64.toBitVec_not, hleft, hright, BitVec.getLsbD_or,
    BitVec.getLsbD_and, BitVec.getLsbD_not, BitVec.getLsbD_shiftLeft, BitVec.getLsbD_ushiftRight,
    getLsbD_mask (by norm_num : 25 ≤ 64), getLsbD_mask (by norm_num : 27 ≤ 64), hi, decide_true,
    Bool.true_and]
  by_cases hlow : i < 2
  · have hfield : i < 27 := by omega
    simp [hlow, hfield, getLsbD_of_aligned haligned hlow]
  · by_cases hfield : i < 27
    · have hplace : 2 + (i - 2) = i := by omega
      have hwidth : i - 2 < 25 := by omega
      simp [hlow, hfield, hplace, hwidth]
    · have hwidth : ¬i - 2 < 25 := by omega
      rw [getLsbD_of_region hregion (by omega) hi]
      simp [hfield, hwidth]

/-! ### Slices of an address -/

theorem toBitVec_shiftLeft_slice (value : UInt64) {k : Nat} (hk : k < 4) :
    (value <<< UInt64.ofNat (16 * k)).toBitVec = value.toBitVec <<< (16 * k) := by
  interval_cases k <;> rfl

theorem toBitVec_shiftRight_slice (value : UInt64) {k : Nat} (hk : k < 4) :
    (value >>> UInt64.ofNat (16 * k)).toBitVec = value.toBitVec >>> (16 * k) := by
  interval_cases k <;> rfl

/-- The bits of a slice. -/
theorem getLsbD_sliceOf (value : UInt64) {n : Nat} (hn : n < 4) {i : Nat} (hi : i < 16) :
    (sliceOf value n).toBitVec.getLsbD i = value.toBitVec.getLsbD (16 * n + i) := by
  rw [sliceOf, UInt64.toBitVec_toUInt16, toBitVec_shiftRight_slice value hn, BitVec.getLsbD_setWidth,
    BitVec.getLsbD_ushiftRight]
  simp [hi]

theorem eq_of_getLsbD_slice {a b : UInt16}
    (h : ∀ i < 16, a.toBitVec.getLsbD i = b.toBitVec.getLsbD i) : a = b :=
  UInt16.toBitVec_inj.1 (BitVec.eq_of_getLsbD_eq h)

/-- A value is made up of its slices. -/
theorem eq_of_sliceOf {a b : UInt64} (h : ∀ n < 4, sliceOf a n = sliceOf b n) : a = b := by
  apply eq_of_getLsbD
  intro i hi
  have hslice : i / 16 < 4 := by omega
  have hbit : i % 16 < 16 := by omega
  have hplace : 16 * (i / 16) + i % 16 = i := by omega
  rw [← hplace, ← getLsbD_sliceOf a hslice hbit, ← getLsbD_sliceOf b hslice hbit, h _ hslice]

theorem and_sliceMask (slice : UInt16) : slice.toUInt64 &&& 0xffff = slice.toUInt64 := by
  have hmask : (0xffff : UInt64).toNat = 2 ^ 16 - 1 := rfl
  have hlt := slice.toNat_lt
  apply UInt64.toNat_inj.1
  rw [UInt64.toNat_and, hmask, Nat.and_two_pow_sub_one_eq_mod, UInt16.toNat_toUInt64]
  omega

namespace Machine

/-- Slice zero is put into the whole register as a signed number. -/
theorem withSlice_zero (before : UInt64) (slice : UInt16) :
    withSlice before 0 slice.toUInt64.toInt64 = slice.toInt16.toInt64.toUInt64 := by
  have hvalue : withSlice before 0 slice.toUInt64.toInt64 =
      (signExtend (slice.toUInt64 &&& 0xffff) 16).toUInt64 := rfl
  have hshifts : (signExtend slice.toUInt64 16).toUInt64.toBitVec =
      (slice.toBitVec.setWidth 64 <<< 48).sshiftRight 48 := rfl
  have hsigned : slice.toInt16.toInt64.toUInt64.toBitVec = slice.toBitVec.signExtend 64 := rfl
  rw [hvalue, and_sliceMask]
  apply eq_of_getLsbD
  intro i hi
  rw [hshifts, hsigned, BitVec.getLsbD_sshiftRight, BitVec.getLsbD_signExtend]
  by_cases hlow : i < 16
  · have hkept : 48 + i < 64 := by omega
    simp [hlow, hi, hkept]
  · have hgone : ¬48 + i < 64 := by omega
    simp [hlow, hi, hgone, BitVec.msb_eq_getLsbD_last]

/-- The lowest slice of a sixteen-bit number in a register is that number. -/
theorem sliceOf_toInt64 (slice : UInt16) : sliceOf slice.toInt16.toInt64.toUInt64 0 = slice := by
  have hsigned : slice.toInt16.toInt64.toUInt64.toBitVec = slice.toBitVec.signExtend 64 := rfl
  apply eq_of_getLsbD_slice
  intro i hi
  have hwidth : i < 64 := by omega
  rw [getLsbD_sliceOf _ (by omega) hi, hsigned, BitVec.getLsbD_signExtend]
  simp [hi, hwidth]

theorem withSlice_eq (before : UInt64) (slice : UInt16) {k : Nat} (hpos : 0 < k) (hk : k < 4) :
    withSlice before (UInt64.ofNat k) slice.toUInt64.toInt64 =
      (before &&& ~~~((0xffff : UInt64) <<< UInt64.ofNat (16 * k))) |||
        ((slice.toUInt64 &&& 0xffff) <<< UInt64.ofNat (16 * k)) := by
  interval_cases k <;> rfl

/-- The bits of a register after a slice of it is replaced. -/
theorem getLsbD_withSlice (before : UInt64) (slice : UInt16) {k : Nat} (hpos : 0 < k) (hk : k < 4)
    {i : Nat} (hi : i < 64) :
    (withSlice before (UInt64.ofNat k) slice.toUInt64.toInt64).toBitVec.getLsbD i =
      if 16 * k ≤ i ∧ i < 16 * k + 16 then slice.toBitVec.getLsbD (i - 16 * k)
      else before.toBitVec.getLsbD i := by
  have hmask : (0xffff : UInt64) = UInt64.ofNat (2 ^ 16 - 1) := rfl
  have hwidth : i - 16 * k < 64 := by omega
  rw [withSlice_eq before slice hpos hk, and_sliceMask, hmask]
  simp only [UInt64.toBitVec_or, UInt64.toBitVec_and, UInt64.toBitVec_not,
    toBitVec_shiftLeft_slice _ hk, UInt16.toBitVec_toUInt64, BitVec.getLsbD_or, BitVec.getLsbD_and,
    BitVec.getLsbD_not, BitVec.getLsbD_shiftLeft, BitVec.getLsbD_setWidth,
    getLsbD_mask (by norm_num : 16 ≤ 64), hi, hwidth, decide_true, Bool.true_and]
  split
  · have hnot : ¬i < 16 * k := by omega
    have hin : i - 16 * k < 16 := by omega
    simp [hnot, hin]
  · by_cases hlow : i < 16 * k
    · simp [hlow]
    · have hout : ¬i - 16 * k < 16 := by omega
      have hpast : slice.toBitVec.getLsbD (i - 16 * k) = false := BitVec.getLsbD_of_ge _ _ (by omega)
      simp [hlow, hout, hpast]

/-- A slice that is replaced leaves the others. -/
theorem sliceOf_withSlice (before : UInt64) (slice : UInt16) {k n : Nat} (hpos : 0 < k) (hk : k < 4)
    (hn : n < 4) :
    sliceOf (withSlice before (UInt64.ofNat k) slice.toUInt64.toInt64) n =
      if n = k then slice else sliceOf before n := by
  apply eq_of_getLsbD_slice
  intro i hi
  rw [getLsbD_sliceOf _ hn hi, getLsbD_withSlice before slice hpos hk (by omega)]
  by_cases hsame : n = k
  · subst hsame
    rw [if_pos (by omega), if_pos rfl, Nat.add_sub_cancel_left]
  · rw [if_neg (by omega), if_neg hsame, getLsbD_sliceOf _ hn hi]

end Machine

end VectorRisc
