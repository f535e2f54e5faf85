/-
Module: VectorRisc.Proofs.Instruction.Word
Layer: Proofs
Purpose: The fields of instruction words. A word is the sum of its fields at their places, so a word that
  is built has the fields it was built from, a word is built again from its fields, and an immediate that
  is replaced is read back while all other fields stay.
Imports: Mathlib.Tactic, VectorRisc.Instruction.Word
Trusted boundary: none
Main exports: Word.toNat_ofR, Word.toNat_ofI, Word.toNat_ofJ, Word.toNat_ofEI, Word.ofR_fields,
  Word.ofI_fields, Word.ofJ_fields, Word.ofEI_fields, Word.immI_setImmI, Word.addrJ_setAddrJ,
  Word.immEI_setImmEI, toInt_signExtend, toNat_toUInt64
Open obligations: none
-/
import Mathlib.Tactic
import VectorRisc.Instruction.Word

namespace VectorRisc

namespace Word

/-! ### Words as numbers

A mask of low bits is a remainder, a shift to the right a quotient, and a field that is put above the
bits of the others a summand. In these terms the laws of fields are linear arithmetic. -/

theorem toNat_and_mask (a : UInt32) {mask : UInt32} {n : Nat} (hmask : mask.toNat = 2 ^ n - 1) :
    (a &&& mask).toNat = a.toNat % 2 ^ n := by
  rw [UInt32.toNat_and, hmask, Nat.and_two_pow_sub_one_eq_mod]

theorem toNat_ofNat_mod {k : Nat} (hk : k < 32) : (UInt32.ofNat k).toNat % 32 = k := by
  rw [UInt32.toNat_ofNat']
  omega

/-- A field is the remainder of the quotient at its place. -/
theorem toNat_shiftRight_mask (w : Word) {k n : Nat} {mask : UInt32} (hk : k < 32)
    (hmask : mask.toNat = 2 ^ n - 1) :
    ((w >>> UInt32.ofNat k) &&& mask).toNat = w.toNat / 2 ^ k % 2 ^ n := by
  rw [toNat_and_mask _ hmask, UInt32.toNat_shiftRight, toNat_ofNat_mod hk,
    Nat.shiftRight_eq_div_pow]

/-- A field that is put above the bits there are is added to them. -/
theorem toNat_or_shiftLeft {a b : UInt32} {k : Nat} (hk : k < 32) (ha : a.toNat < 2 ^ k)
    (hb : b.toNat * 2 ^ k < 2 ^ 32) :
    (a ||| b <<< UInt32.ofNat k).toNat = a.toNat + b.toNat * 2 ^ k := by
  have hshift : (b <<< UInt32.ofNat k).toNat = b.toNat <<< k := by
    rw [UInt32.toNat_shiftLeft, toNat_ofNat_mod hk, Nat.shiftLeft_eq, Nat.mod_eq_of_lt hb]
  rw [UInt32.toNat_or, hshift, Nat.or_comm, ← Nat.shiftLeft_add_eq_or_of_lt ha, Nat.shiftLeft_eq,
    Nat.add_comm]

theorem toNat_opcode (w : Word) : w.opcode.toNat = w.toNat % 2 ^ 7 := by
  have hfield : (w &&& opcodeMask).toNat = w.toNat % 2 ^ 7 := toNat_and_mask w rfl
  rw [opcode, UInt32.toNat_toUInt8, hfield]
  omega

theorem toNat_fieldD (w : Word) : w.fieldD.toNat = w.toNat / 2 ^ 7 % 2 ^ 5 := by
  have hfield : ((w >>> 7) &&& registerMask).toNat = w.toNat / 2 ^ 7 % 2 ^ 5 :=
    toNat_shiftRight_mask w (by norm_num) rfl
  rw [fieldD, UInt32.toNat_toUInt8, hfield]
  omega

theorem toNat_fieldS (w : Word) : w.fieldS.toNat = w.toNat / 2 ^ 12 % 2 ^ 5 := by
  have hfield : ((w >>> 12) &&& registerMask).toNat = w.toNat / 2 ^ 12 % 2 ^ 5 :=
    toNat_shiftRight_mask w (by norm_num) rfl
  rw [fieldS, UInt32.toNat_toUInt8, hfield]
  omega

theorem toNat_fieldT (w : Word) : w.fieldT.toNat = w.toNat / 2 ^ 17 % 2 ^ 5 := by
  have hfield : ((w >>> 17) &&& registerMask).toNat = w.toNat / 2 ^ 17 % 2 ^ 5 :=
    toNat_shiftRight_mask w (by norm_num) rfl
  rw [fieldT, UInt32.toNat_toUInt8, hfield]
  omega

theorem toNat_funcR (w : Word) : w.funcR.toNat = w.toNat / 2 ^ 22 % 2 ^ 10 := by
  have hfield : ((w >>> 22) &&& funcMaskR).toNat = w.toNat / 2 ^ 22 % 2 ^ 10 :=
    toNat_shiftRight_mask w (by norm_num) rfl
  rw [funcR, UInt32.toNat_toUInt16, hfield]
  omega

theorem toNat_immI (w : Word) : w.immI.toNat = w.toNat / 2 ^ 17 % 2 ^ 15 := by
  have hfield : ((w >>> 17) &&& immMaskI).toNat = w.toNat / 2 ^ 17 % 2 ^ 15 :=
    toNat_shiftRight_mask w (by norm_num) rfl
  rw [immI, UInt32.toNat_toUInt16, hfield]
  omega

theorem toNat_addrJ (w : Word) : w.addrJ.toNat = w.toNat / 2 ^ 7 % 2 ^ 25 :=
  toNat_shiftRight_mask w (by norm_num) rfl

theorem toNat_funcEI (w : Word) : w.funcEI.toNat = w.toNat / 2 ^ 12 % 2 ^ 4 := by
  have hfield : ((w >>> 12) &&& funcMaskEI).toNat = w.toNat / 2 ^ 12 % 2 ^ 4 :=
    toNat_shiftRight_mask w (by norm_num) rfl
  rw [funcEI, UInt32.toNat_toUInt8, hfield]
  omega

theorem toNat_immEI (w : Word) : w.immEI.toNat = w.toNat / 2 ^ 16 := by
  have hlt := w.toNat_lt
  have hshift : (w >>> 16).toNat = w.toNat / 2 ^ 16 := by
    rw [UInt32.toNat_shiftRight]
    exact Nat.shiftRight_eq_div_pow _ _
  rw [immEI, UInt32.toNat_toUInt16, hshift]
  omega

/-! ### Words that are built -/

section Built

variable (op : UInt8) (func : UInt16) (func' rd rs rt : UInt8) (imm : UInt16) (addr : UInt32)

theorem toNat_opcodeField : (op.toUInt32 &&& opcodeMask).toNat = op.toNat % 2 ^ 7 := toNat_and_mask _ rfl

theorem toNat_registerField : (rd.toUInt32 &&& registerMask).toNat = rd.toNat % 2 ^ 5 :=
  toNat_and_mask _ rfl

theorem toNat_ofR : (ofR op func rd rs rt).toNat =
    op.toNat % 2 ^ 7 + rd.toNat % 2 ^ 5 * 2 ^ 7 + rs.toNat % 2 ^ 5 * 2 ^ 12 +
      rt.toNat % 2 ^ 5 * 2 ^ 17 + func.toNat % 2 ^ 10 * 2 ^ 22 := by
  have hop := toNat_opcodeField op
  have hrd := toNat_registerField rd
  have hrs := toNat_registerField rs
  have hrt := toNat_registerField rt
  have hfunc : (func.toUInt32 &&& funcMaskR).toNat = func.toNat % 2 ^ 10 := toNat_and_mask _ rfl
  have h7 := toNat_or_shiftLeft (k := 7) (a := op.toUInt32 &&& opcodeMask)
    (b := rd.toUInt32 &&& registerMask) (by norm_num) (by omega) (by omega)
  have h12 := toNat_or_shiftLeft (k := 12) (b := rs.toUInt32 &&& registerMask) (by norm_num)
    (by rw [h7]; omega) (by omega)
  have h17 := toNat_or_shiftLeft (k := 17) (b := rt.toUInt32 &&& registerMask) (by norm_num)
    (by rw [h12]; omega) (by omega)
  have h22 := toNat_or_shiftLeft (k := 22) (b := func.toUInt32 &&& funcMaskR) (by norm_num)
    (by rw [h17]; omega) (by omega)
  rw [h17, h12, h7, hop, hrd, hrs, hrt, hfunc] at h22
  exact h22

theorem toNat_ofI : (ofI op rt rs imm).toNat =
    op.toNat % 2 ^ 7 + rt.toNat % 2 ^ 5 * 2 ^ 7 + rs.toNat % 2 ^ 5 * 2 ^ 12 +
      imm.toNat % 2 ^ 15 * 2 ^ 17 := by
  have hop := toNat_opcodeField op
  have hrt := toNat_registerField rt
  have hrs := toNat_registerField rs
  have himm : (imm.toUInt32 &&& immMaskI).toNat = imm.toNat % 2 ^ 15 := toNat_and_mask _ rfl
  have h7 := toNat_or_shiftLeft (k := 7) (a := op.toUInt32 &&& opcodeMask)
    (b := rt.toUInt32 &&& registerMask) (by norm_num) (by omega) (by omega)
  have h12 := toNat_or_shiftLeft (k := 12) (b := rs.toUInt32 &&& registerMask) (by norm_num)
    (by rw [h7]; omega) (by omega)
  have h17 := toNat_or_shiftLeft (k := 17) (b := imm.toUInt32 &&& immMaskI) (by norm_num)
    (by rw [h12]; omega) (by omega)
  rw [h12, h7, hop, hrt, hrs, himm] at h17
  exact h17

theorem toNat_ofJ : (ofJ op addr).toNat = op.toNat % 2 ^ 7 + addr.toNat % 2 ^ 25 * 2 ^ 7 := by
  have hop := toNat_opcodeField op
  have haddr : (addr &&& addrMaskJ).toNat = addr.toNat % 2 ^ 25 := toNat_and_mask _ rfl
  have h7 := toNat_or_shiftLeft (k := 7) (a := op.toUInt32 &&& opcodeMask) (b := addr &&& addrMaskJ)
    (by norm_num) (by omega) (by omega)
  rw [hop, haddr] at h7
  exact h7

theorem toNat_ofEI : (ofEI op func' rd imm).toNat =
    op.toNat % 2 ^ 7 + rd.toNat % 2 ^ 5 * 2 ^ 7 + func'.toNat % 2 ^ 4 * 2 ^ 12 + imm.toNat * 2 ^ 16 := by
  have hop := toNat_opcodeField op
  have hrd := toNat_registerField rd
  have hfunc : (func'.toUInt32 &&& funcMaskEI).toNat = func'.toNat % 2 ^ 4 := toNat_and_mask _ rfl
  have himm : imm.toUInt32.toNat = imm.toNat := UInt16.toNat_toUInt32 imm
  have hlt := imm.toNat_lt
  have h7 := toNat_or_shiftLeft (k := 7) (a := op.toUInt32 &&& opcodeMask)
    (b := rd.toUInt32 &&& registerMask) (by norm_num) (by omega) (by omega)
  have h12 := toNat_or_shiftLeft (k := 12) (b := func'.toUInt32 &&& funcMaskEI) (by norm_num)
    (by rw [h7]; omega) (by omega)
  have h16 := toNat_or_shiftLeft (k := 16) (b := imm.toUInt32) (by norm_num)
    (by rw [h12]; omega) (by omega)
  rw [h12, h7, hop, hrd, hfunc, himm] at h16
  exact h16

end Built

theorem toNat_and_mask8 (a : UInt8) {mask : UInt8} {n : Nat} (hmask : mask.toNat = 2 ^ n - 1) :
    (a &&& mask).toNat = a.toNat % 2 ^ n := by
  rw [UInt8.toNat_and, hmask, Nat.and_two_pow_sub_one_eq_mod]

theorem toNat_and_mask16 (a : UInt16) {mask : UInt16} {n : Nat} (hmask : mask.toNat = 2 ^ n - 1) :
    (a &&& mask).toNat = a.toNat % 2 ^ n := by
  rw [UInt16.toNat_and, hmask, Nat.and_two_pow_sub_one_eq_mod]

@[simp] theorem opcode_ofR (op : UInt8) (func : UInt16) (rd rs rt : UInt8) :
    (ofR op func rd rs rt).opcode = op &&& 0x7f := by
  apply UInt8.toNat_inj.1
  rw [toNat_opcode, toNat_ofR, toNat_and_mask8 op (n := 7) rfl]
  omega

@[simp] theorem fieldD_ofR (op : UInt8) (func : UInt16) (rd rs rt : UInt8) :
    (ofR op func rd rs rt).fieldD = rd &&& 0x1f := by
  apply UInt8.toNat_inj.1
  rw [toNat_fieldD, toNat_ofR, toNat_and_mask8 rd (n := 5) rfl]
  omega

@[simp] theorem fieldS_ofR (op : UInt8) (func : UInt16) (rd rs rt : UInt8) :
    (ofR op func rd rs rt).fieldS = rs &&& 0x1f := by
  apply UInt8.toNat_inj.1
  rw [toNat_fieldS, toNat_ofR, toNat_and_mask8 rs (n := 5) rfl]
  omega

@[simp] theorem fieldT_ofR (op : UInt8) (func : UInt16) (rd rs rt : UInt8) :
    (ofR op func rd rs rt).fieldT = rt &&& 0x1f := by
  apply UInt8.toNat_inj.1
  rw [toNat_fieldT, toNat_ofR, toNat_and_mask8 rt (n := 5) rfl]
  omega

@[simp] theorem funcR_ofR (op : UInt8) (func : UInt16) (rd rs rt : UInt8) :
    (ofR op func rd rs rt).funcR = func &&& 0x3ff := by
  apply UInt16.toNat_inj.1
  rw [toNat_funcR, toNat_ofR, toNat_and_mask16 func (n := 10) rfl]
  omega

@[simp] theorem opcode_ofI (op rt rs : UInt8) (imm : UInt16) :
    (ofI op rt rs imm).opcode = op &&& 0x7f := by
  apply UInt8.toNat_inj.1
  rw [toNat_opcode, toNat_ofI, toNat_and_mask8 op (n := 7) rfl]
  omega

@[simp] theorem fieldD_ofI (op rt rs : UInt8) (imm : UInt16) :
    (ofI op rt rs imm).fieldD = rt &&& 0x1f := by
  apply UInt8.toNat_inj.1
  rw [toNat_fieldD, toNat_ofI, toNat_and_mask8 rt (n := 5) rfl]
  omega

@[simp] theorem fieldS_ofI (op rt rs : UInt8) (imm : UInt16) :
    (ofI op rt rs imm).fieldS = rs &&& 0x1f := by
  apply UInt8.toNat_inj.1
  rw [toNat_fieldS, toNat_ofI, toNat_and_mask8 rs (n := 5) rfl]
  omega

@[simp] theorem immI_ofI (op rt rs : UInt8) (imm : UInt16) :
    (ofI op rt rs imm).immI = imm &&& 0x7fff := by
  apply UInt16.toNat_inj.1
  rw [toNat_immI, toNat_ofI, toNat_and_mask16 imm (n := 15) rfl]
  omega

@[simp] theorem opcode_ofJ (op : UInt8) (addr : UInt32) : (ofJ op addr).opcode = op &&& 0x7f := by
  apply UInt8.toNat_inj.1
  rw [toNat_opcode, toNat_ofJ, toNat_and_mask8 op (n := 7) rfl]
  omega

@[simp] theorem addrJ_ofJ (op : UInt8) (addr : UInt32) :
    (ofJ op addr).addrJ = addr &&& addrMaskJ := by
  apply UInt32.toNat_inj.1
  rw [toNat_addrJ, toNat_ofJ, toNat_and_mask addr (n := 25) rfl]
  omega

@[simp] theorem opcode_ofEI (op func rd : UInt8) (imm : UInt16) :
    (ofEI op func rd imm).opcode = op &&& 0x7f := by
  apply UInt8.toNat_inj.1
  rw [toNat_opcode, toNat_ofEI, toNat_and_mask8 op (n := 7) rfl]
  omega

@[simp] theorem fieldD_ofEI (op func rd : UInt8) (imm : UInt16) :
    (ofEI op func rd imm).fieldD = rd &&& 0x1f := by
  apply UInt8.toNat_inj.1
  rw [toNat_fieldD, toNat_ofEI, toNat_and_mask8 rd (n := 5) rfl]
  omega

@[simp] theorem funcEI_ofEI (op func rd : UInt8) (imm : UInt16) :
    (ofEI op func rd imm).funcEI = func &&& 0xf := by
  apply UInt8.toNat_inj.1
  rw [toNat_funcEI, toNat_ofEI, toNat_and_mask8 func (n := 4) rfl]
  omega

@[simp] theorem immEI_ofEI (op func rd : UInt8) (imm : UInt16) : (ofEI op func rd imm).immEI = imm := by
  apply UInt16.toNat_inj.1
  rw [toNat_immEI, toNat_ofEI]
  omega

/-! ### Words from their fields -/

theorem ofR_fields (w : Word) : ofR w.opcode w.funcR w.fieldD w.fieldS w.fieldT = w := by
  have hlt := w.toNat_lt
  apply UInt32.toNat_inj.1
  rw [toNat_ofR, toNat_opcode, toNat_funcR, toNat_fieldD, toNat_fieldS, toNat_fieldT]
  omega

theorem ofI_fields (w : Word) : ofI w.opcode w.fieldD w.fieldS w.immI = w := by
  have hlt := w.toNat_lt
  apply UInt32.toNat_inj.1
  rw [toNat_ofI, toNat_opcode, toNat_fieldD, toNat_fieldS, toNat_immI]
  omega

theorem ofJ_fields (w : Word) : ofJ w.opcode w.addrJ = w := by
  have hlt := w.toNat_lt
  apply UInt32.toNat_inj.1
  rw [toNat_ofJ, toNat_opcode, toNat_addrJ]
  omega

theorem ofJ_opcode_zero (w : Word) : ofJ w.opcode 0 = w &&& 0x7f := by
  have hopcode : (w &&& 0x7f).toNat = w.toNat % 2 ^ 7 := toNat_and_mask w rfl
  apply UInt32.toNat_inj.1
  rw [toNat_ofJ, toNat_opcode, hopcode, UInt32.toNat_zero]
  omega

theorem ofEI_fields (w : Word) : ofEI w.opcode w.funcEI w.fieldD w.immEI = w := by
  have hlt := w.toNat_lt
  apply UInt32.toNat_inj.1
  rw [toNat_ofEI, toNat_opcode, toNat_funcEI, toNat_fieldD, toNat_immEI]
  omega

/-! ### Immediates that are replaced -/

theorem toNat_setImmI (w : Word) (imm : UInt16) :
    (w.setImmI imm).toNat = w.toNat % 2 ^ 17 + imm.toNat % 2 ^ 15 * 2 ^ 17 := by
  have hkept : (w &&& ~~~(immMaskI <<< 17)).toNat = w.toNat % 2 ^ 17 := toNat_and_mask w rfl
  have himm : (imm.toUInt32 &&& immMaskI).toNat = imm.toNat % 2 ^ 15 := toNat_and_mask _ rfl
  have h17 := toNat_or_shiftLeft (k := 17) (a := w &&& ~~~(immMaskI <<< 17))
    (b := imm.toUInt32 &&& immMaskI) (by norm_num) (by omega) (by omega)
  rw [hkept, himm] at h17
  exact h17

theorem toNat_setAddrJ (w : Word) (addr : UInt32) :
    (w.setAddrJ addr).toNat = w.toNat % 2 ^ 7 + addr.toNat % 2 ^ 25 * 2 ^ 7 := by
  have hkept : (w &&& ~~~(addrMaskJ <<< 7)).toNat = w.toNat % 2 ^ 7 := toNat_and_mask w rfl
  have haddr : (addr &&& addrMaskJ).toNat = addr.toNat % 2 ^ 25 := toNat_and_mask _ rfl
  have h7 := toNat_or_shiftLeft (k := 7) (a := w &&& ~~~(addrMaskJ <<< 7)) (b := addr &&& addrMaskJ)
    (by norm_num) (by omega) (by omega)
  rw [hkept, haddr] at h7
  exact h7

theorem toNat_setImmEI (w : Word) (imm : UInt16) :
    (w.setImmEI imm).toNat = w.toNat % 2 ^ 16 + imm.toNat * 2 ^ 16 := by
  have hkept : (w &&& ~~~((0xffff : UInt32) <<< 16)).toNat = w.toNat % 2 ^ 16 := toNat_and_mask w rfl
  have himm : imm.toUInt32.toNat = imm.toNat := UInt16.toNat_toUInt32 imm
  have hlt := imm.toNat_lt
  have h16 := toNat_or_shiftLeft (k := 16) (a := w &&& ~~~((0xffff : UInt32) <<< 16))
    (b := imm.toUInt32) (by norm_num) (by omega) (by omega)
  rw [hkept, himm] at h16
  exact h16

@[simp] theorem opcode_setImmI (w : Word) (imm : UInt16) : (w.setImmI imm).opcode = w.opcode := by
  apply UInt8.toNat_inj.1
  rw [toNat_opcode, toNat_opcode, toNat_setImmI]
  omega

@[simp] theorem fieldD_setImmI (w : Word) (imm : UInt16) : (w.setImmI imm).fieldD = w.fieldD := by
  apply UInt8.toNat_inj.1
  rw [toNat_fieldD, toNat_fieldD, toNat_setImmI]
  omega

@[simp] theorem fieldS_setImmI (w : Word) (imm : UInt16) : (w.setImmI imm).fieldS = w.fieldS := by
  apply UInt8.toNat_inj.1
  rw [toNat_fieldS, toNat_fieldS, toNat_setImmI]
  omega

@[simp] theorem immI_setImmI (w : Word) (imm : UInt16) : (w.setImmI imm).immI = imm &&& 0x7fff := by
  apply UInt16.toNat_inj.1
  rw [toNat_immI, toNat_setImmI, toNat_and_mask16 imm (n := 15) rfl]
  omega

@[simp] theorem opcode_setAddrJ (w : Word) (addr : UInt32) : (w.setAddrJ addr).opcode = w.opcode := by
  apply UInt8.toNat_inj.1
  rw [toNat_opcode, toNat_opcode, toNat_setAddrJ]
  omega

@[simp] theorem addrJ_setAddrJ (w : Word) (addr : UInt32) :
    (w.setAddrJ addr).addrJ = addr &&& addrMaskJ := by
  apply UInt32.toNat_inj.1
  rw [toNat_addrJ, toNat_setAddrJ, toNat_and_mask addr (n := 25) rfl]
  omega

@[simp] theorem opcode_setImmEI (w : Word) (imm : UInt16) : (w.setImmEI imm).opcode = w.opcode := by
  apply UInt8.toNat_inj.1
  rw [toNat_opcode, toNat_opcode, toNat_setImmEI]
  omega

@[simp] theorem fieldD_setImmEI (w : Word) (imm : UInt16) : (w.setImmEI imm).fieldD = w.fieldD := by
  apply UInt8.toNat_inj.1
  rw [toNat_fieldD, toNat_fieldD, toNat_setImmEI]
  omega

@[simp] theorem funcEI_setImmEI (w : Word) (imm : UInt16) : (w.setImmEI imm).funcEI = w.funcEI := by
  apply UInt8.toNat_inj.1
  rw [toNat_funcEI, toNat_funcEI, toNat_setImmEI]
  omega

@[simp] theorem immEI_setImmEI (w : Word) (imm : UInt16) : (w.setImmEI imm).immEI = imm := by
  apply UInt16.toNat_inj.1
  rw [toNat_immEI, toNat_setImmEI]
  omega

end Word

/-! ### Immediates as numbers -/

/-- The value of a fifteen-bit field that is sign extended. -/
theorem toInt_signExtend {value : UInt64} (hvalue : value.toNat < 2 ^ 15) :
    (signExtend value 15).toInt =
      if value.toNat < 2 ^ 14 then (value.toNat : Int) else (value.toNat : Int) - 2 ^ 15 := by
  have hshift : signExtend value 15 = (value <<< 49).toInt64 >>> 49 := rfl
  have hbits : ((value <<< 49).toInt64 >>> 49).toBitVec = (value.toBitVec <<< 49).sshiftRight 49 := rfl
  rw [hshift, ← Int64.toInt_toBitVec, hbits, BitVec.toInt_sshiftRight, BitVec.toInt_eq_toNat_cond,
    BitVec.toNat_shiftLeft]
  simp only [UInt64.toNat_toBitVec, Nat.shiftLeft_eq, Int.shiftRight_eq_div_pow]
  split <;> split <;> omega

theorem toNat_toUInt64 (count : Int64) : (count.toUInt64.toNat : Int) = count.toInt % 2 ^ 64 := by
  have hcases := BitVec.toInt_eq_toNat_cond count.toBitVec
  have hnat : count.toUInt64.toNat = count.toBitVec.toNat := rfl
  have hlt := count.toUInt64.toNat_lt
  rw [Int64.toInt_toBitVec] at hcases
  rw [hnat] at hlt ⊢
  split at hcases <;> omega

/-- A value below half of the range is the same number with a sign. -/
theorem toInt_toInt64 {value : UInt64} (hvalue : value.toNat < 2 ^ 63) :
    value.toInt64.toInt = value.toNat := by
  have hcases := BitVec.toInt_eq_toNat_cond value.toBitVec
  rw [UInt64.toNat_toBitVec, if_pos (by omega)] at hcases
  exact hcases

end VectorRisc
