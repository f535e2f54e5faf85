/-
Module: VectorRisc.Proofs.Machine.Arithmetic
Layer: Proofs
Purpose: Products and quotients are exact. The halves of a product make up the product of the operands as
  integers, with signs and without; a quotient and its remainder make up the dividend, at both widths and
  for every divisor. The instructions that leave one of a pair of results agree with those that leave both.
Imports: Mathlib.Tactic, VectorRisc.Proofs.Machine.Straight
Trusted boundary: none
Main exports: Arithmetic.productHigh_append, Arithmetic.productHighUnsigned_append,
  Arithmetic.DividesSigned, Arithmetic.DividesUnsigned, Machine.Gives, Machine.LeavesPair,
  Machine.products_quotients_exact
Open obligations: none
-/
import Mathlib.Tactic
import VectorRisc.Proofs.Machine.Straight

namespace VectorRisc

namespace Arithmetic

/-! ### Products -/

theorem toNat_productHighUnsigned (a b : UInt64) :
    (productHighUnsigned a b).toNat = a.toNat * b.toNat / 2 ^ 64 := by
  have hproduct : a.toNat * b.toNat < 2 ^ 64 * 2 ^ 64 := Nat.mul_lt_mul'' a.toNat_lt b.toNat_lt
  have hhigh : a.toNat * b.toNat / 2 ^ 64 < 2 ^ 64 := Nat.div_lt_of_lt_mul hproduct
  exact UInt64.toNat_ofNat_of_lt' hhigh

/-- The halves of a product of words without signs make it up. -/
theorem productHighUnsigned_append (a b : UInt64) :
    ((productHighUnsigned a b).toBitVec ++ (a * b).toBitVec).toNat = a.toNat * b.toNat := by
  have hhigh : (productHighUnsigned a b).toBitVec.toNat = a.toNat * b.toNat / 2 ^ 64 :=
    toNat_productHighUnsigned a b
  have hlow : (a * b).toBitVec.toNat = a.toNat * b.toNat % 2 ^ 64 := UInt64.toNat_mul a b
  rw [BitVec.toNat_append, ← Nat.shiftLeft_add_eq_or_of_lt (a * b).toBitVec.isLt, hhigh, hlow,
    Nat.shiftLeft_eq, Nat.mul_comm, Nat.div_add_mod]

/-- One for a negative word, zero for any other. -/
def signBit (a : UInt64) : Nat := if a.toInt64 < 0 then 1 else 0

/-- A word as a signed number. -/
theorem toInt_eq_sub (a : UInt64) : a.toInt64.toInt = (a.toNat : Int) - 2 ^ 64 * signBit a := by
  have hvalue : a.toInt64.toInt = a.toBitVec.toInt := rfl
  have hnat : a.toBitVec.toNat = a.toNat := rfl
  have hlt := a.toNat_lt
  simp only [signBit, Int64.lt_iff_toInt_lt, hvalue, BitVec.toInt_eq_toNat_cond, hnat, Int64.toInt_zero]
  by_cases hsmall : 2 * a.toNat < 2 ^ 64
  · rw [if_pos hsmall, if_neg (by omega)]
    simp
  · rw [if_neg hsmall, if_pos (by push_cast; omega)]
    simp

theorem product_bounds (a b : UInt64) :
    -(2 ^ 126) ≤ a.toInt64.toInt * b.toInt64.toInt ∧ a.toInt64.toInt * b.toInt64.toInt ≤ 2 ^ 126 := by
  have hleft : |a.toInt64.toInt| ≤ 2 ^ 63 := abs_le.2 ⟨a.toInt64.le_toInt, a.toInt64.toInt_lt.le⟩
  have hright : |b.toInt64.toInt| ≤ 2 ^ 63 := abs_le.2 ⟨b.toInt64.le_toInt, b.toInt64.toInt_lt.le⟩
  have hproduct := mul_le_mul hleft hright (abs_nonneg _) (by positivity)
  rw [← abs_mul, ← pow_add] at hproduct
  exact abs_le.1 hproduct

/-- Each negative operand takes the other one from the high half, up to multiples of the modulus. -/
theorem productHigh_congr (a b : UInt64) : (productHigh a b).toInt64.toInt % 2 ^ 64 =
    ((a.toNat * b.toNat / 2 ^ 64 : Nat) - (signBit a * b.toNat + signBit b * a.toNat : Nat) : Int) %
      2 ^ 64 := by
  have hhigh := toNat_productHighUnsigned a b
  have ha := a.toNat_lt
  have hb := b.toNat_lt
  rw [toInt_eq_sub, ← hhigh]
  generalize signBit (productHigh a b) = s
  simp only [productHigh, signBit]
  by_cases hna : a.toInt64 < 0
  · by_cases hnb : b.toInt64 < 0
    · simp only [hna, hnb, if_true, UInt64.toNat_sub, one_mul]
      omega
    · simp only [hna, hnb, if_true, if_false, UInt64.toNat_sub, one_mul, zero_mul]
      omega
  · by_cases hnb : b.toInt64 < 0
    · simp only [hna, hnb, if_true, if_false, UInt64.toNat_sub, one_mul, zero_mul]
      omega
    · simp only [hna, hnb, if_false, zero_mul]
      omega

/-- The halves of a product of words with signs make it up. -/
theorem productHigh_append (a b : UInt64) :
    ((productHigh a b).toBitVec ++ (a * b).toBitVec).toInt = a.toInt64.toInt * b.toInt64.toInt := by
  have hhigh := productHigh_congr a b
  obtain ⟨hleast, hmost⟩ := product_bounds a b
  have hrange := (productHigh a b).toInt64.le_toInt
  have hrange' := (productHigh a b).toInt64.toInt_lt
  have hvalue : (productHigh a b).toBitVec.toInt = (productHigh a b).toInt64.toInt := rfl
  have hlow : (a * b).toBitVec.toNat = a.toNat * b.toNat % 2 ^ 64 := UInt64.toNat_mul a b
  have hsigned : a.toInt64.toInt * b.toInt64.toInt = (a.toNat * b.toNat : Nat) -
      2 ^ 64 * (signBit a * b.toNat + signBit b * a.toNat : Nat) +
      2 ^ 128 * (signBit a * signBit b : Nat) := by
    rw [toInt_eq_sub a, toInt_eq_sub b]
    push_cast
    ring
  have happend : ((productHigh a b).toBitVec ++ (a * b).toBitVec).toInt =
      2 ^ 64 * (productHigh a b).toInt64.toInt + ((a * b).toBitVec.toNat : Int) := by
    rw [BitVec.toInt_append, hvalue]
    rfl
  rw [hsigned] at hleast hmost ⊢
  rw [happend, hlow]
  -- both sides are congruent modulo the whole width, and neither leaves it
  generalize a.toNat * b.toNat = product at *
  generalize signBit a * b.toNat + signBit b * a.toNat = taken at *
  generalize signBit a * signBit b = both at *
  omega

/-! ### Quotients -/

variable {w : Nat}

/-- Quotient and remainder of words with signs. They make up the dividend, and as integers too unless the
    least number is divided by minus one. The remainder is smaller than the divisor and has the sign of the
    dividend. Division by zero gives all ones and leaves the dividend. -/
structure DividesSigned (a b q r : BitVec w) : Prop where
  wraps : q * b + r = a
  exact : b ≠ 0 → ¬(a = BitVec.intMin w ∧ b = -1) → q.toInt * b.toInt + r.toInt = a.toInt
  small : b ≠ 0 → r.toInt.natAbs < b.toInt.natAbs
  sign : b ≠ 0 → r = 0 ∨ r.toInt.sign = a.toInt.sign
  byZero : b = 0 → q = BitVec.allOnes w ∧ r = a

/-- Quotient and remainder of words without signs. -/
structure DividesUnsigned (a b q r : BitVec w) : Prop where
  wraps : q * b + r = a
  exact : b ≠ 0 → q.toNat * b.toNat + r.toNat = a.toNat
  small : b ≠ 0 → r.toNat < b.toNat
  byZero : b = 0 → q = BitVec.allOnes w ∧ r = a

theorem dividesSigned_zero (a : BitVec w) : DividesSigned a 0 (BitVec.allOnes w) a := by
  refine ⟨?_, ?_, ?_, ?_, fun _ => ⟨rfl, rfl⟩⟩
  · simp
  all_goals
    intro hb
    exact absurd rfl hb

theorem dividesUnsigned_zero (a : BitVec w) : DividesUnsigned a 0 (BitVec.allOnes w) a := by
  refine ⟨?_, ?_, ?_, fun _ => ⟨rfl, rfl⟩⟩
  · simp
  all_goals
    intro hb
    exact absurd rfl hb

/-- Truncated division by a divisor that is not zero. -/
theorem dividesSigned_sdiv_srem (a : BitVec w) {b : BitVec w} (hb : b ≠ 0) :
    DividesSigned a b (a.sdiv b) (a.srem b) := by
  have hdivisor : b.toInt ≠ 0 := fun h => hb (BitVec.toInt_inj.1 (h.trans BitVec.toInt_zero.symm))
  have hsum := Int.tdiv_mul_add_tmod a.toInt b.toInt
  have hrem := BitVec.toInt_srem a b
  refine ⟨?_, ?_, ?_, ?_, fun h => absurd h hb⟩
  · apply BitVec.toInt_inj.1
    rw [BitVec.toInt_add, BitVec.toInt_mul, BitVec.toInt_sdiv, hrem, Int.bmod_mul_bmod, Int.bmod_add_bmod,
      hsum, BitVec.toInt_bmod_cancel]
  · intro _ hfits
    rw [BitVec.toInt_sdiv_of_ne_or_ne a b (by tauto), hrem, hsum]
  · intro _
    rw [hrem, Int.natAbs_tmod]
    exact Nat.mod_lt _ (Int.natAbs_pos.2 hdivisor)
  · intro _
    have hsign := Int.sign_tmod a.toInt b.toInt
    rw [← hrem] at hsign
    split at hsign
    · left
      exact BitVec.toInt_inj.1 ((Int.sign_eq_zero_iff_zero.1 hsign).trans BitVec.toInt_zero.symm)
    · exact .inr hsign

theorem dividesUnsigned_udiv_umod (a : BitVec w) {b : BitVec w} (hb : b ≠ 0) :
    DividesUnsigned a b (a / b) (a % b) := by
  have hdivisor : 0 < b.toNat := BitVec.toNat_pos_of_ne_zero hb
  have hsum := Nat.div_add_mod' a.toNat b.toNat
  refine ⟨?_, ?_, ?_, fun h => absurd h hb⟩
  · apply BitVec.toNat_inj.1
    rw [BitVec.toNat_add, BitVec.toNat_mul, BitVec.toNat_udiv, BitVec.toNat_umod, Nat.mod_add_mod, hsum]
    exact Nat.mod_eq_of_lt a.isLt
  · intro _
    rw [BitVec.toNat_udiv, BitVec.toNat_umod, hsum]
  · intro _
    rw [BitVec.toNat_umod]
    exact Nat.mod_lt _ hdivisor

theorem divide64_divides (a b : UInt64) : DividesSigned a.toBitVec b.toBitVec
    (divide64 a b).1.toBitVec (divide64 a b).2.toBitVec := by
  rw [divide64]
  split
  · rename_i hzero
    rw [hzero]
    exact dividesSigned_zero a.toBitVec
  · rename_i hzero
    exact dividesSigned_sdiv_srem a.toBitVec (fun h => hzero (UInt64.toBitVec_inj.1 h))

theorem divide32_divides (a b : UInt32) : DividesSigned a.toBitVec b.toBitVec
    (divide32 a b).1.toBitVec (divide32 a b).2.toBitVec := by
  rw [divide32]
  split
  · rename_i hzero
    rw [hzero]
    exact dividesSigned_zero a.toBitVec
  · rename_i hzero
    exact dividesSigned_sdiv_srem a.toBitVec (fun h => hzero (UInt32.toBitVec_inj.1 h))

theorem divideUnsigned64_divides (a b : UInt64) : DividesUnsigned a.toBitVec b.toBitVec
    (divideUnsigned64 a b).1.toBitVec (divideUnsigned64 a b).2.toBitVec := by
  rw [divideUnsigned64]
  split
  · rename_i hzero
    rw [hzero]
    exact dividesUnsigned_zero a.toBitVec
  · rename_i hzero
    exact dividesUnsigned_udiv_umod a.toBitVec (fun h => hzero (UInt64.toBitVec_inj.1 h))

end Arithmetic

namespace Machine

/-! ### The instructions -/

/-- The machine is about to execute an instruction of a name on two values. -/
structure Meets {σ : Type} (m : Machine σ) (name : String) (x : Instruction) (a b : UInt64) : Prop where
  standard : m.Standard
  faces : ∃ action, m.Faces x action
  name : x.mnemonic.name = Text.ofString name
  left : m.get x.rs = a
  right : m.get x.rt = b

theorem Meets.reads {σ : Type} {m : Machine σ} {name : String} {x : Instruction} {a b : UInt64}
    (h : m.Meets name x a b) {action : Action}
    (haction : Action.all.lookup (Text.ofString name) = some action) :
    ∃ word, m.memory.fetch m.registers.pc = .ok word ∧ m.Reads word x action := by
  obtain ⟨found, hfaces⟩ := h.faces
  obtain ⟨word, hfetch, hreads⟩ := hfaces.reads h.standard
  have hsame := hreads.acts
  rw [h.name, haction] at hsame
  cases hsame
  exact ⟨word, hfetch, hreads⟩

variable (σ : Type) [FileSystem σ]

/-- Executed on two values, the instruction puts a value into its register and changes no other. -/
def Gives (name : String) (a b value : UInt64) : Prop :=
  ∀ (m : Machine σ) (x : Instruction), m.Meets name x a b →
    ∃ next, m.clock = ⟨next, none⟩ ∧ next.registers.Agree (m.registers.set x.rd value) ∧
      next.memory = m.memory

/-- Executed on two values, the instruction leaves a pair of values in `hi` and `lo` and changes no other
    register. -/
def LeavesPair (name : String) (a b hi lo : UInt64) : Prop :=
  ∀ (m : Machine σ) (x : Instruction), m.Meets name x a b →
    ∃ next, m.clock = ⟨next, none⟩ ∧ next.registers.Agree { m.registers with hi := hi, lo := lo } ∧
      next.memory = m.memory

variable {σ}

theorem gives_compute (name : String) {f : UInt64 → UInt64 → UInt64}
    (haction : Action.all.lookup (Text.ofString name) = some (.compute f)) (a b : UInt64) :
    Gives σ name a b (f a b) := by
  intro m x hmeets
  obtain ⟨word, hfetch, hreads⟩ := hmeets.reads haction
  obtain ⟨next, hnext⟩ := hreads.passes_compute
  rw [hmeets.left, hmeets.right] at hnext
  exact ⟨next, (clock_eq_obey hfetch).trans hnext.obeys, hnext.registers, hnext.memory⟩

theorem leavesPair_computePair (name : String) {f : UInt64 → UInt64 → UInt64 × UInt64}
    (haction : Action.all.lookup (Text.ofString name) = some (.computePair f)) (a b : UInt64) :
    LeavesPair σ name a b (f a b).1 (f a b).2 := by
  intro m x hmeets
  obtain ⟨word, hfetch, hreads⟩ := hmeets.reads haction
  obtain ⟨next, hnext⟩ := hreads.passes_computePair
  rw [hmeets.left, hmeets.right] at hnext
  exact ⟨next, (clock_eq_obey hfetch).trans hnext.obeys, hnext.registers, hnext.memory⟩

open Arithmetic

/-- Multiplication and division are exact for all operands. The pair that `mult` and `multu` leave is the
    product of the operands as numbers of twice the width, with signs and without; `mulh`, `mulhu` and
    `mul` give its halves. `div` and `rem`, `divu` and `remu`, and on the low words `divw` and `remw` give
    quotient and remainder, and `divm` and `divmu` leave both of them. -/
theorem products_quotients_exact (a b : UInt64) :
    (∃ hi lo, LeavesPair σ "mult" a b hi lo ∧ Gives σ "mulh" a b hi ∧ Gives σ "mul" a b lo ∧
      (hi.toBitVec ++ lo.toBitVec).toInt = a.toInt64.toInt * b.toInt64.toInt) ∧
    (∃ hi lo, LeavesPair σ "multu" a b hi lo ∧ Gives σ "mulhu" a b hi ∧ Gives σ "mul" a b lo ∧
      (hi.toBitVec ++ lo.toBitVec).toNat = a.toNat * b.toNat) ∧
    (∃ q r, Gives σ "div" a b q ∧ Gives σ "rem" a b r ∧ LeavesPair σ "divm" a b r q ∧
      DividesSigned a.toBitVec b.toBitVec q.toBitVec r.toBitVec) ∧
    (∃ q r, Gives σ "divu" a b q ∧ Gives σ "remu" a b r ∧ LeavesPair σ "divmu" a b r q ∧
      DividesUnsigned a.toBitVec b.toBitVec q.toBitVec r.toBitVec) ∧
    ∃ q r : UInt32, Gives σ "divw" a b (extend32 q) ∧ Gives σ "remw" a b (extend32 r) ∧
      DividesSigned a.toUInt32.toBitVec b.toUInt32.toBitVec q.toBitVec r.toBitVec := by
  refine ⟨?_, ?_, ?_, ?_, ?_⟩
  · exact ⟨_, _, leavesPair_computePair "mult" rfl a b, gives_compute "mulh" rfl a b,
      gives_compute "mul" rfl a b, productHigh_append a b⟩
  · exact ⟨_, _, leavesPair_computePair "multu" rfl a b,
      gives_compute "mulhu" rfl a b, gives_compute "mul" rfl a b,
      productHighUnsigned_append a b⟩
  · exact ⟨_, _, gives_compute "div" rfl a b, gives_compute "rem" rfl a b,
      leavesPair_computePair "divm" rfl a b, divide64_divides a b⟩
  · exact ⟨_, _, gives_compute "divu" rfl a b, gives_compute "remu" rfl a b,
      leavesPair_computePair "divmu" rfl a b, divideUnsigned64_divides a b⟩
  · exact ⟨_, _, gives_compute "divw" rfl a b, gives_compute "remw" rfl a b,
      divide32_divides a.toUInt32 b.toUInt32⟩

/-- A machine that has come to `divm`, with the least number to divide by minus one. -/
def leastByMinusOne : Machine Disk where
  files := Files.fresh {} {}
  memory := { regions := [Region.make (Text.ofString "text") Segment.textBase 4 Access.rx
    (Bytes.ofList (Bytes.ofNat 4 (Word.ofR 0 0x02a 0 1 2).toNat))] }
  registers := { (({} : Registers).set 1 0x8000000000000000).set 2 (-1) with pc := Segment.textBase }

theorem products_quotients_exact_leastByMinusOne :
    ∃ x, leastByMinusOne.Meets "divm" x 0x8000000000000000 (-1) ∧
      ∃ next, leastByMinusOne.clock = ⟨next, none⟩ ∧ next.registers.hi = 0 ∧
        next.registers.lo = 0x8000000000000000 := by
  have hfaces : leastByMinusOne.Faces
      { mnemonic := Mnemonic.scalar "divm" 0x02a [.rs, .rt], rs := 1, rt := 2 } _ :=
    ⟨rfl, Word.ofR 0 0x02a 0 1 2, rfl⟩
  have hmeets : leastByMinusOne.Meets "divm" _ 0x8000000000000000 (-1) :=
    ⟨⟨rfl, rfl⟩, ⟨_, hfaces⟩, rfl, rfl, rfl⟩
  obtain ⟨-, -, ⟨q, r, -, -, hpair, hdivides⟩, -, -⟩ :=
    products_quotients_exact (σ := Disk) 0x8000000000000000 (-1)
  obtain ⟨next, hclock, hregisters, -⟩ := hpair leastByMinusOne _ hmeets
  have hr : r = 0 := by
    have hsmall : r.toBitVec.toInt.natAbs < 1 := hdivides.small (by decide)
    apply UInt64.toBitVec_inj.1
    apply BitVec.toInt_inj.1
    rw [Int.natAbs_eq_zero.1 (Nat.lt_one_iff.1 hsmall)]
    rfl
  have hq : q = 0x8000000000000000 := by
    have hwraps : q * -1 + r = 0x8000000000000000 := UInt64.toBitVec_inj.1 hdivides.wraps
    rw [hr, UInt64.add_zero, UInt64.mul_neg, UInt64.mul_one] at hwraps
    exact UInt64.neg_inj.1 hwraps
  exact ⟨_, hmeets, next, hclock, hregisters.hi.trans hr, hregisters.lo.trans hq⟩

end Machine

end VectorRisc
