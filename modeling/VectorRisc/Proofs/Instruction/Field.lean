/-
Module: VectorRisc.Proofs.Instruction.Field
Layer: Proofs
Purpose: The bits of a word that an instruction shows: its code and the fields of its operands. Taking
  over one operand of a word after the other gives the instruction of the word with all other bits
  cleared.
Imports: Mathlib.Tactic, VectorRisc.Proofs.Instruction.RoundTrip
Trusted boundary: none
Main exports: OperandKind.bits, Mnemonic.bits, Instruction.withOperand, Instruction.written,
  Instruction.written_unpack, Instruction.encode_written
Open obligations: none
-/
import Mathlib.Tactic
import VectorRisc.Proofs.Instruction.RoundTrip

namespace VectorRisc

/-! ### Bits that are shown -/

/-- The bits of the opcode, and of the function code where the layout has one. -/
def Format.codeBits : Format → Word
  | .r => Word.opcodeMask ||| Word.funcMaskR <<< 22
  | .ei => Word.opcodeMask ||| Word.funcMaskEI <<< 12
  | _ => Word.opcodeMask

/-- The bits of the immediate. -/
def Format.immBits : Format → Word
  | .i => Word.immMaskI <<< 17
  | .j => Word.addrMaskJ <<< 7
  | .ei => (0xffff : UInt32) <<< 16
  | _ => 0

/-- The bits of the field that an operand fills, or of both fields. The immediate layout has its target
    register in the place of the destination. -/
def OperandKind.bits (format : Format) : OperandKind → Word
  | .rd | .vd | .kd => Word.registerMask <<< 7
  | .rs | .vs => Word.registerMask <<< 12
  | .rt | .vt | .kt => if format = .i then Word.registerMask <<< 7 else Word.registerMask <<< 17
  | .imm | .target => format.immBits
  | .mem => Word.registerMask <<< 12 ||| format.immBits
  | .index => Word.registerMask <<< 12 ||| Word.registerMask <<< 17
  | .unknown _ => 0

/-- The bits that an instruction shows: those of its code and of its operands. -/
def Mnemonic.bits (m : Mnemonic) : Word :=
  m.operands.foldl (fun bits kind => bits ||| kind.bits m.format) m.format.codeBits

namespace Word

/-! ### Masks and fields -/

section Masks

variable {w bits shown field : Word}

theorem or_and_distrib (a b c : Word) : (a ||| b) &&& c = (a &&& c) ||| (b &&& c) :=
  UInt32.toBitVec_inj.1 BitVec.and_or_distrib_right

theorem and_or_absorb (a b : Word) : (a &&& b) ||| b = b := by
  apply UInt32.toBitVec_inj.1
  ext i
  simp only [UInt32.toBitVec_or, UInt32.toBitVec_and, BitVec.getElem_or, BitVec.getElem_and]
  grind

/-- Bits outside a field do not matter to it. -/
theorem and_or_of_disjoint (h : shown &&& field = 0) :
    (w &&& (bits ||| shown)) &&& field = (w &&& bits) &&& field := by
  rw [UInt32.and_assoc, or_and_distrib, h, UInt32.or_zero, UInt32.and_assoc]

/-- A field that is shown is as in the whole word. -/
theorem and_or_of_covers (h : shown &&& field = field) :
    (w &&& (bits ||| shown)) &&& field = w &&& field := by
  rw [UInt32.and_assoc, or_and_distrib, h, and_or_absorb]

theorem and_of_disjoint (h : bits &&& field = 0) : (w &&& bits) &&& field = 0 := by
  rw [UInt32.and_assoc, h, UInt32.and_zero]

theorem and_of_covers (h : bits &&& field = field) : (w &&& bits) &&& field = w &&& field := by
  rw [UInt32.and_assoc, h]

end Masks

/-! Each field reads a word through the mask of its own bits. -/

theorem fieldD_eq (w : Word) : w.fieldD = ((w &&& registerMask <<< 7) >>> 7).toUInt8 := by
  rw [UInt32.shiftRight_and]
  rfl

theorem fieldS_eq (w : Word) : w.fieldS = ((w &&& registerMask <<< 12) >>> 12).toUInt8 := by
  rw [UInt32.shiftRight_and]
  rfl

theorem fieldT_eq (w : Word) : w.fieldT = ((w &&& registerMask <<< 17) >>> 17).toUInt8 := by
  rw [UInt32.shiftRight_and]
  rfl

theorem immI_eq (w : Word) : w.immI = ((w &&& immMaskI <<< 17) >>> 17).toUInt16 := by
  rw [UInt32.shiftRight_and]
  rfl

theorem addrJ_eq (w : Word) : w.addrJ = (w &&& addrMaskJ <<< 7) >>> 7 := by
  rw [UInt32.shiftRight_and]
  rfl

theorem immEI_eq (w : Word) : w.immEI = ((w &&& (0xffff : UInt32) <<< 16) >>> 16).toUInt16 := by
  rw [UInt32.shiftRight_and, UInt32.toUInt16_and]
  exact UInt16.and_neg_one.symm

theorem opcode_eq (w : Word) : w.opcode = (w &&& opcodeMask).toUInt8 := rfl

theorem funcR_eq (w : Word) : w.funcR = ((w &&& funcMaskR <<< 22) >>> 22).toUInt16 := by
  rw [UInt32.shiftRight_and]
  rfl

theorem funcEI_eq (w : Word) : w.funcEI = ((w &&& funcMaskEI <<< 12) >>> 12).toUInt8 := by
  rw [UInt32.shiftRight_and]
  rfl

end Word

/-! ### Operands that are taken over -/

namespace Instruction

/-- The second instruction with the fields of one operand taken over from the first. -/
def withOperand (x : Instruction) (kind : OperandKind) (y : Instruction) : Instruction :=
  match kind with
  | .rd | .vd | .kd => { y with rd := x.rd }
  | .rs | .vs => { y with rs := x.rs }
  | .rt | .vt | .kt => { y with rt := x.rt }
  | .imm | .target => { y with imm := x.imm }
  | .mem => { y with rs := x.rs, imm := x.imm }
  | .index => { y with rs := x.rs, rt := x.rt }
  | .unknown _ => y

/-- The instruction with nothing but what its operands show. -/
def written (x : Instruction) : Instruction :=
  x.mnemonic.operands.foldl (fun y kind => x.withOperand kind y) { mnemonic := x.mnemonic }

variable {w : Word} {m : Mnemonic}

/-- Taking over an operand of a word shows the bits of its fields. -/
theorem withOperand_unpack {kind : OperandKind} (hkind : kind ∈ m.operands)
    (hallowed : kind ∈ OperandKind.allowed m.format) (bits : Word) :
    (w.unpack m).withOperand kind ((w &&& bits).unpack m) =
      (w &&& (bits ||| kind.bits m.format)).unpack m := by
  -- every field of a layout is either among the bits of the operand or apart from them
  cases hf : m.format with
  | r =>
      simp only [hf, OperandKind.allowed, List.mem_cons, List.not_mem_nil, or_false] at hallowed
      rcases hallowed with rfl | rfl | rfl | rfl | rfl | rfl | rfl | rfl | rfl
      all_goals
        simp (disch := decide) only [withOperand, Word.unpack, hf, Word.fieldD_eq, Word.fieldS_eq,
          Word.fieldT_eq, Word.and_or_of_disjoint, Word.and_or_of_covers]
  | i =>
      simp only [hf, OperandKind.allowed, List.mem_cons, List.not_mem_nil, or_false] at hallowed
      rcases hallowed with rfl | rfl | rfl | rfl | rfl | rfl
      all_goals
        simp (disch := decide) only [withOperand, Word.unpack, hf, Word.fieldD_eq, Word.fieldS_eq,
          Word.immI_eq, Word.and_or_of_disjoint, Word.and_or_of_covers]
  | j =>
      simp only [hf, OperandKind.allowed, List.mem_cons, List.not_mem_nil, or_false] at hallowed
      subst hallowed
      have htarget : m.operands.isEmpty = false := by
        simpa using List.ne_nil_of_mem hkind
      simp (disch := decide) only [withOperand, Word.unpack, hf, htarget, Bool.false_eq_true, if_false,
        Word.addrJ_eq, Word.and_or_of_covers]
  | ei =>
      simp only [hf, OperandKind.allowed, List.mem_cons, List.not_mem_nil, or_false] at hallowed
      rcases hallowed with rfl | rfl
      all_goals
        simp (disch := decide) only [withOperand, Word.unpack, hf, Word.fieldD_eq, Word.immEI_eq,
          Word.and_or_of_disjoint, Word.and_or_of_covers]
  | pseudo => simp [hf, OperandKind.allowed] at hallowed
  | unknown code => simp [hf, OperandKind.allowed] at hallowed

/-- Taking over some operands after another shows the bits of all of them. -/
theorem foldl_withOperand_unpack {kinds : List OperandKind}
    (hkinds : ∀ kind ∈ kinds, kind ∈ m.operands ∧ kind ∈ OperandKind.allowed m.format) (bits : Word) :
    kinds.foldl (fun y kind => (w.unpack m).withOperand kind y) ((w &&& bits).unpack m) =
      (w &&& kinds.foldl (fun bits kind => bits ||| kind.bits m.format) bits).unpack m := by
  induction kinds generalizing bits with
  | nil => rfl
  | cons kind kinds ih =>
      obtain ⟨⟨hkind, hallowed⟩, hkinds⟩ := List.forall_mem_cons.1 hkinds
      rw [List.foldl_cons, List.foldl_cons, withOperand_unpack hkind hallowed, ih hkinds]

/-- The code of a word shows no operand. -/
theorem unpack_codeBits (w : Word) (m : Mnemonic) :
    (w &&& m.format.codeBits).unpack m = { mnemonic := m } := by
  cases hf : m.format with
  | r =>
      simp (disch := decide) only [Word.unpack, hf, Word.fieldD_eq, Word.fieldS_eq, Word.fieldT_eq,
        Word.and_of_disjoint]
      rfl
  | i =>
      have hextend : extendImmI m.imm ((0 : UInt32) >>> 17).toUInt16 = 0 := by cases m.imm <;> rfl
      simp (disch := decide) only [Word.unpack, hf, Word.fieldD_eq, Word.fieldS_eq, Word.immI_eq,
        Word.and_of_disjoint, hextend]
      rfl
  | j =>
      simp (disch := decide) only [Word.unpack, hf, Word.addrJ_eq, Word.and_of_disjoint]
      split <;> rfl
  | ei =>
      simp (disch := decide) only [Word.unpack, hf, Word.fieldD_eq, Word.immEI_eq, Word.and_of_disjoint]
      rfl
  | pseudo => simp only [Word.unpack, hf]
  | unknown code => simp only [Word.unpack, hf]

theorem written_unpack (hfits : m.Fits) : (w.unpack m).written = (w &&& m.bits).unpack m := by
  rw [written, Word.unpack_mnemonic, ← unpack_codeBits w m,
    foldl_withOperand_unpack fun kind hkind => ⟨hkind, hfits.2.1 kind hkind⟩]
  rfl

end Instruction

/-! ### Words with all else cleared -/

namespace Word

variable {w : Word} {m : Mnemonic}

/-- Operands add to the bits that are shown. -/
theorem and_bits_of_covers {field : Word} (h : m.format.codeBits &&& field = field) :
    m.bits &&& field = field := by
  rw [Mnemonic.bits]
  generalize m.format.codeBits = code at h
  induction m.operands generalizing code with
  | nil => exact h
  | cons kind kinds ih =>
      rw [List.foldl_cons]
      exact ih _ (by rw [or_and_distrib, h, UInt32.or_comm, and_or_absorb])

theorem Carries.and_bits (h : w.Carries m) : (w &&& m.bits).Carries m := by
  refine ⟨?_, fun hf => ?_, fun hf => ?_⟩
  · have hcode : m.format.codeBits &&& opcodeMask = opcodeMask := by
      cases m.format <;> (simp only [Format.codeBits]; decide)
    rw [opcode_eq, and_of_covers (and_bits_of_covers hcode)]
    exact h.1
  · have hcode : m.format.codeBits &&& funcMaskR <<< 22 = funcMaskR <<< 22 := by rw [hf]; rfl
    rw [funcR_eq, and_of_covers (and_bits_of_covers hcode), ← funcR_eq]
    exact h.2.1 hf
  · have hcode : m.format.codeBits &&& funcMaskEI <<< 12 = funcMaskEI <<< 12 := by rw [hf]; rfl
    rw [funcEI_eq, and_of_covers (and_bits_of_covers hcode), ← funcEI_eq]
    exact h.2.2 hf

end Word

theorem ImmediateKind.fits_zero (kind : ImmediateKind) : kind.Fits 0 := by
  cases kind with
  | unknown code => simp [Fits, range?]
  | _ => simp

namespace Instruction

open Mnemonic

variable {w : Word} {m : Mnemonic}

theorem imm_foldl_withOperand (x : Instruction) (kinds : List OperandKind) (y : Instruction) :
    (kinds.foldl (fun y kind => x.withOperand kind y) y).imm = x.imm ∨
      (kinds.foldl (fun y kind => x.withOperand kind y) y).imm = y.imm := by
  induction kinds generalizing y with
  | nil => exact .inr rfl
  | cons kind kinds ih =>
      have hstep : (x.withOperand kind y).imm = x.imm ∨ (x.withOperand kind y).imm = y.imm := by
        cases kind <;> simp [withOperand]
      rw [List.foldl_cons]
      rcases ih (x.withOperand kind y) with h | h
      · exact .inl h
      · rw [h]
        exact hstep

/-- An immediate that fits does so with all else cleared, since one that is not shown is zero. -/
theorem check_written (hfits : m.Fits) (hcheck : check (w.unpack m) = .ok ()) :
    check (w.unpack m).written = .ok () := by
  have himm : (w.unpack m).written.imm = (w.unpack m).imm ∨ (w.unpack m).written.imm = 0 :=
    imm_foldl_withOperand _ _ _
  rw [written_unpack hfits] at himm ⊢
  rw [check_eq_ok_iff (Word.unpack_label _ m), Word.unpack_mnemonic] at hcheck ⊢
  rcases himm with himm | himm
  · rw [himm]
    exact hcheck
  · have hzero : (0 : Int64).toInt = 0 := rfl
    rw [himm, hzero]
    exact ⟨fun _ => rfl, ImmediateKind.fits_zero m.imm⟩

/-- An instruction whose immediate fits is packed to its word with all bits cleared that it does not
    show. -/
theorem encode_written (hm : m ∈ standard) (hreal : m.isPseudo = false) (h : w.Carries m)
    (hcheck : check (w.unpack m).written = .ok ()) : (w.unpack m).written.encode = .ok (w &&& m.bits) := by
  rw [written_unpack (standard_fits m hm hreal).1] at hcheck ⊢
  rcases standard_imm m hm hreal with
    ⟨hf, himm⟩ | ⟨hf, -⟩ | ⟨hf, hbare, himm⟩ | ⟨hf, htarget, himm⟩ | ⟨hf, himm⟩
  · exact encode_unpack_register h.and_bits hf himm
  · exact encode_unpack_short h.and_bits hf hcheck
  · have hbits : m.bits = 0x7f := by
      rw [bits, List.isEmpty_iff.1 hbare, hf]
      rfl
    rw [encode_unpack_bare h.and_bits hf hbare himm, hbits, UInt32.and_assoc]
    rfl
  · exact encode_unpack_target h.and_bits hf htarget himm
  · exact encode_unpack_slice h.and_bits hf himm

end Instruction

end VectorRisc
