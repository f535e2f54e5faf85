/-
Module: VectorRisc.Proofs.Instruction.RoundTrip
Layer: Proofs
Purpose: Instructions and their words determine each other. An instruction whose immediate fits is read
  back from its word with the fields that its layout carries, and a word is packed again from the
  instruction it stands for, short of the bits that an instruction without operands ignores and of shift
  amounts that are out of range.
Imports: Mathlib.Tactic, VectorRisc.Proofs.Instruction.Code, VectorRisc.Proofs.Instruction.Word
Trusted boundary: none
Main exports: ImmediateKind.Fits, Instruction.check_eq_ok_iff, Instruction.carried,
  Instruction.decode_encode_carried, Word.repacked, Instruction.encode_unpack,
  Instruction.encode_decode_repacked
Open obligations: none
-/
import Mathlib.Tactic
import VectorRisc.Proofs.Instruction.Code
import VectorRisc.Proofs.Instruction.Word

namespace VectorRisc

/-! ### Immediates that fit -/

namespace ImmediateKind

/-- The value is within the range of its kind, if the kind has one. -/
def Fits (kind : ImmediateKind) (value : Int) : Prop :=
  ∀ least most, kind.range? = some (least, most) → least.toInt ≤ value ∧ value ≤ most.toInt

variable {value : Int}

theorem fits_iff {kind : ImmediateKind} {least most : Int64} {low high : Int}
    (h : kind.range? = some (least, most)) (hlow : least.toInt = low) (hhigh : most.toInt = high) :
    kind.Fits value ↔ low ≤ value ∧ value ≤ high := by
  simp [Fits, h, hlow, hhigh]

@[simp] theorem fits_signed : Fits .signed value ↔ -16384 ≤ value ∧ value ≤ 16383 :=
  fits_iff rfl (by decide) (by decide)

@[simp] theorem fits_branch : Fits .branch value ↔ -16384 ≤ value ∧ value ≤ 16383 :=
  fits_iff rfl (by decide) (by decide)

@[simp] theorem fits_unsigned : Fits .unsigned value ↔ 0 ≤ value ∧ value ≤ 32767 :=
  fits_iff rfl (by decide) (by decide)

@[simp] theorem fits_shift64 : Fits .shift64 value ↔ 0 ≤ value ∧ value ≤ 63 :=
  fits_iff rfl (by decide) (by decide)

@[simp] theorem fits_shift32 : Fits .shift32 value ↔ 0 ≤ value ∧ value ≤ 31 :=
  fits_iff rfl (by decide) (by decide)

@[simp] theorem fits_slice : Fits .slice value ↔ -32768 ≤ value ∧ value ≤ 65535 :=
  fits_iff rfl (by decide) (by decide)

@[simp] theorem fits_jump : Fits .jump value ↔ 0 ≤ value ∧ value ≤ 0x7fffffc :=
  fits_iff rfl (by decide) (by decide)

@[simp] theorem fits_none : Fits .none value := by simp [Fits, range?]

end ImmediateKind

namespace Instruction

open Mnemonic

/-- An immediate passes if it is within the range of its kind, and aligned if it is a jump target. -/
theorem check_eq_ok_iff {x : Instruction} (hlabel : x.label = []) :
    check x = .ok () ↔ (x.mnemonic.imm = .jump → x.imm &&& 3 = 0) ∧ x.mnemonic.imm.Fits x.imm.toInt := by
  rw [check, hlabel]
  by_cases hjump : x.mnemonic.imm = .jump ∧ x.imm &&& 3 ≠ 0
  · simp [hjump]
  · have haligned : x.mnemonic.imm = .jump → x.imm &&& 3 = 0 := by
      intro himm
      by_contra hodd
      exact hjump ⟨himm, hodd⟩
    have hpassed : (decide (x.mnemonic.imm = .jump) && decide (x.imm &&& 3 ≠ 0)) = false := by
      simpa using haligned
    cases hrange : x.mnemonic.imm.range? with
    | none => simp [ImmediateKind.Fits, hrange]
    | some range =>
        obtain ⟨least, most⟩ := range
        simp only [List.isEmpty_nil, Bool.not_true, hpassed, Bool.false_eq_true, if_false,
          Int64.lt_iff_toInt_lt, Bool.or_eq_true, decide_eq_true_eq, ImmediateKind.fits_iff hrange rfl rfl]
        constructor
        · intro h
          split at h
          · cases h
          · exact ⟨haligned, by omega⟩
        · rintro ⟨-, hin⟩
          rw [if_neg (by omega)]

/-- The low fifteen bits of an immediate. -/
theorem toNat_shortField (imm : Int64) :
    ((imm.toUInt64.toUInt16 &&& 0x7fff).toNat : Int) = imm.toInt % 2 ^ 15 := by
  have hbits := toNat_toUInt64 imm
  rw [Word.toNat_and_mask16 _ (n := 15) rfl, UInt64.toNat_toUInt16]
  omega

/-- A short field as its mnemonic extends it. -/
theorem toInt_extendImmI {kind : ImmediateKind} {field : UInt16} (h : field.toNat < 2 ^ 15) :
    (extendImmI kind field).toInt =
      if (kind = .signed ∨ kind = .branch) ∧ 2 ^ 14 ≤ field.toNat then (field.toNat : Int) - 2 ^ 15
      else (field.toNat : Int) := by
  have hwide : field.toUInt64.toNat = field.toNat := UInt16.toNat_toUInt64 field
  have hsigned : (signExtend field.toUInt64 15).toInt =
      if field.toNat < 2 ^ 14 then (field.toNat : Int) else (field.toNat : Int) - 2 ^ 15 := by
    rw [toInt_signExtend (by rw [hwide]; exact h), hwide]
  have hplain : field.toUInt64.toInt64.toInt = field.toNat := by
    rw [toInt_toInt64 (by rw [hwide]; omega), hwide]
  cases kind with
  | signed =>
      simp only [extendImmI, hsigned, true_or, true_and]
      split <;> split <;> omega
  | branch =>
      simp only [extendImmI, hsigned, or_true, true_and]
      split <;> split <;> omega
  | _ => simpa [extendImmI] using hplain

/-- A short immediate that fits is read back from its field. -/
theorem extendImmI_shortField {kind : ImmediateKind} {imm : Int64}
    (hkind : kind ∈ [.signed, .unsigned, .shift64, .shift32, .branch]) (hfits : kind.Fits imm.toInt) :
    extendImmI kind (imm.toUInt64.toUInt16 &&& 0x7fff) = imm := by
  have hfield := toNat_shortField imm
  apply Int64.toInt_inj.1
  rw [toInt_extendImmI (by omega)]
  simp only [List.mem_cons, List.not_mem_nil, or_false] at hkind
  rcases hkind with rfl | rfl | rfl | rfl | rfl
  · simp only [ImmediateKind.fits_signed] at hfits
    simp only [true_or, true_and]
    split <;> omega
  · simp only [ImmediateKind.fits_unsigned] at hfits
    simp only [reduceCtorEq, or_self, false_and, if_false]
    omega
  · simp only [ImmediateKind.fits_shift64] at hfits
    simp only [reduceCtorEq, or_self, false_and, if_false]
    omega
  · simp only [ImmediateKind.fits_shift32] at hfits
    simp only [reduceCtorEq, or_self, false_and, if_false]
    omega
  · simp only [ImmediateKind.fits_branch] at hfits
    simp only [or_true, true_and]
    split <;> omega

/-- A jump target is aligned if it is a multiple of four. -/
theorem and_three_eq_zero_iff {imm : Int64} : imm &&& 3 = 0 ↔ imm.toUInt64.toNat % 4 = 0 := by
  have hmask : (3 : UInt64).toNat = 2 ^ 2 - 1 := rfl
  have hbits : (imm.toUInt64 &&& 3).toNat = imm.toUInt64.toNat % 4 := by
    rw [UInt64.toNat_and, hmask, Nat.and_two_pow_sub_one_eq_mod]
  rw [← hbits]
  constructor
  · intro h
    exact congrArg (fun v : Int64 => v.toUInt64.toNat) h
  · intro h
    exact congrArg UInt64.toInt64 (UInt64.toNat_inj.1 h : imm.toUInt64 &&& 3 = 0)

/-- The byte address of a jump field. -/
theorem toNat_target {field : UInt32} (h : field.toNat < 2 ^ 25) :
    (field.toUInt64 <<< 2).toNat = 4 * field.toNat := by
  have hcount : (2 : UInt64).toNat % 64 = 2 := rfl
  rw [UInt64.toNat_shiftLeft, UInt32.toNat_toUInt64, hcount, Nat.shiftLeft_eq]
  omega

theorem toNat_wordAddress (addr : UInt64) : (addr >>> 2).toUInt32.toNat = addr.toNat / 4 % 2 ^ 32 := by
  have hcount : (2 : UInt64).toNat % 64 = 2 := rfl
  rw [UInt64.toNat_toUInt32, UInt64.toNat_shiftRight, hcount, Nat.shiftRight_eq_div_pow]

/-- A jump target that fits is read back from its field. -/
theorem target_of_addrField {imm : Int64} (haligned : imm &&& 3 = 0)
    (hfits : ImmediateKind.Fits .jump imm.toInt) :
    (((imm.toUInt64 >>> 2).toUInt32 &&& Word.addrMaskJ).toUInt64 <<< 2).toInt64 = imm := by
  have hbits := toNat_toUInt64 imm
  have hlow := and_three_eq_zero_iff.1 haligned
  have hfield : ((imm.toUInt64 >>> 2).toUInt32 &&& Word.addrMaskJ).toNat =
      imm.toUInt64.toNat / 4 % 2 ^ 25 := by
    rw [Word.toNat_and_mask _ (n := 25) rfl, toNat_wordAddress]
    omega
  have htarget := toNat_target (by omega : ((imm.toUInt64 >>> 2).toUInt32 &&& Word.addrMaskJ).toNat < 2 ^ 25)
  rw [ImmediateKind.fits_jump] at hfits
  apply Int64.toInt_inj.1
  rw [toInt_toInt64 (by omega), htarget]
  omega

theorem slice_of_immField (imm : Int64) :
    imm.toUInt64.toUInt16.toUInt64.toInt64 = Int64.ofInt (imm.toInt % 65536) := by
  have hbits := toNat_toUInt64 imm
  have hfield : imm.toUInt64.toUInt16.toUInt64.toNat = imm.toUInt64.toNat % 2 ^ 16 := by
    rw [UInt16.toNat_toUInt64, UInt64.toNat_toUInt16]
  apply Int64.toInt_inj.1
  rw [toInt_toInt64 (by rw [hfield]; omega), hfield, Int64.toInt_ofInt_of_le (by omega) (by omega)]
  omega

/-! ### Words of instructions -/

/-- The part of an instruction that its layout has fields for. A slice keeps the low sixteen bits of its
    immediate. -/
def carried (x : Instruction) : Instruction :=
  match x.mnemonic.format with
  | .r => { mnemonic := x.mnemonic, rd := x.rd, rs := x.rs, rt := x.rt }
  | .i => { mnemonic := x.mnemonic, rt := x.rt, rs := x.rs, imm := x.imm }
  | .j => { mnemonic := x.mnemonic, imm := if x.mnemonic.operands.isEmpty then 0 else x.imm }
  | .ei => { mnemonic := x.mnemonic, rd := x.rd, imm := Int64.ofInt (x.imm.toInt % 65536) }
  | .pseudo | .unknown _ => { mnemonic := x.mnemonic }

theorem and_registerMask {register : UInt8} (h : register < 32) : register &&& 0x1f = register := by
  have hlt : register.toNat < 32 := h
  apply UInt8.toNat_inj.1
  rw [Word.toNat_and_mask8 register (n := 5) rfl]
  omega

/-- An instruction whose registers exist and whose immediate fits has a word, and the word decodes to
    what the layout carries. -/
theorem decode_encode_carried {x : Instruction} (hm : x.mnemonic ∈ standard)
    (hreal : x.mnemonic.isPseudo = false) (hrd : x.rd < 32) (hrs : x.rs < 32) (hrt : x.rt < 32)
    (hlabel : x.label = []) (hcheck : check x = .ok ()) :
    ∃ w, x.encode = .ok w ∧ decode Table.standard w = .ok x.carried := by
  obtain ⟨haligned, hfits⟩ := (check_eq_ok_iff hlabel).1 hcheck
  obtain ⟨hopcode, hfunc, hslice⟩ := standard_code _ hm hreal
  have hempty : x.label.isEmpty = true := by simp [hlabel]
  have hd := and_registerMask hrd
  have hs := and_registerMask hrs
  have ht := and_registerMask hrt
  rcases standard_imm _ hm hreal with ⟨hf, -⟩ | ⟨hf, himm⟩ | ⟨hf, hbare, -⟩ | ⟨hf, htarget, himm⟩ | ⟨hf, -⟩
  · refine ⟨Word.ofR x.mnemonic.opcode x.mnemonic.func x.rd x.rs x.rt, ?_, ?_⟩
    · simp only [encode, hcheck, hf]
    · rw [decode_of_carries hm hreal ⟨by simpa using hopcode, by simpa using fun _ => hfunc, by simp [hf]⟩]
      simp only [Word.unpack, carried, hf, Word.fieldD_ofR, Word.fieldS_ofR, Word.fieldT_ofR, hd, hs, ht]
  · refine ⟨Word.ofI x.mnemonic.opcode x.rt x.rs x.imm.toUInt64.toUInt16, ?_, ?_⟩
    · simp only [encode, hcheck, hf, hempty, if_true]
    · rw [decode_of_carries hm hreal ⟨by simpa using hopcode, by simp [hf], by simp [hf]⟩]
      simp only [Word.unpack, carried, hf, Word.fieldD_ofI, Word.fieldS_ofI, Word.immI_ofI, hs, ht,
        extendImmI_shortField himm hfits]
  · refine ⟨Word.ofJ x.mnemonic.opcode (x.imm.toUInt64 >>> 2).toUInt32, ?_, ?_⟩
    · simp only [encode, hcheck, hf, hempty, if_true]
    · rw [decode_of_carries hm hreal ⟨by simpa using hopcode, by simp [hf], by simp [hf]⟩]
      simp only [Word.unpack, carried, hf, hbare, if_true]
  · refine ⟨Word.ofJ x.mnemonic.opcode (x.imm.toUInt64 >>> 2).toUInt32, ?_, ?_⟩
    · simp only [encode, hcheck, hf, hempty, if_true]
    · rw [himm] at hfits
      rw [decode_of_carries hm hreal ⟨by simpa using hopcode, by simp [hf], by simp [hf]⟩]
      simp only [Word.unpack, carried, hf, htarget, Bool.false_eq_true, if_false, Word.addrJ_ofJ,
        target_of_addrField (haligned himm) hfits]
  · refine ⟨Word.ofEI x.mnemonic.opcode x.mnemonic.func.toUInt8 x.rd x.imm.toUInt64.toUInt16, ?_, ?_⟩
    · simp only [encode, hcheck, hf, hempty, if_true]
    · rw [decode_of_carries hm hreal ⟨by simpa using hopcode, by simp [hf], by simpa using hslice⟩]
      simp only [Word.unpack, carried, hf, Word.fieldD_ofEI, Word.immEI_ofEI, hd, slice_of_immField]

/-- The farthest branch backwards. -/
theorem decode_encode_carried_farBranch :
    let bgeu := short "bgeu" 0x25 .branch [.rs, .rt, .target]
    let x : Instruction := { mnemonic := bgeu, rs := 31, rt := 1, imm := -16384 }
    check x = .ok () ∧ ∃ w, x.encode = .ok w ∧ decode Table.standard w = .ok x := by
  intro bgeu x
  have hcheck : check x = .ok () := rfl
  exact ⟨hcheck, decode_encode_carried (x := x) (branch_mem (by decide)) rfl (by decide) (by decide)
    (by decide) rfl hcheck⟩

end Instruction

/-! ### Instructions of words -/

namespace Mnemonic

/-- The instructions of the jump layout that have no operand. -/
def bareNames : List Text := ["syscall", "nop"].map Text.ofString

/-- The shifts of whole registers by an immediate. -/
def longShiftNames : List Text := ["slli", "srli", "srai"].map Text.ofString

/-- The shifts of the low half of registers by an immediate. -/
def wordShiftNames : List Text := ["slliw", "srliw", "sraiw"].map Text.ofString

set_option maxRecDepth 4000 in
theorem standard_names : ∀ m ∈ standard, m.isPseudo = false →
    (m.name ∈ bareNames ↔ m.format = .j ∧ m.operands.isEmpty = true) ∧
      (m.name ∈ longShiftNames ↔ m.imm = .shift64) ∧ (m.name ∈ wordShiftNames ↔ m.imm = .shift32) := by
  decide

end Mnemonic

/-- What packing the instruction of a word gives: the word, but for an instruction without operands only
    its opcode, and for a shift by more bits than there are an error. -/
def Word.repacked (w : Word) (m : Mnemonic) : Except Instruction.Error Word :=
  let amount := w.immI.toUInt64.toInt64
  if m.name ∈ Mnemonic.bareNames then .ok (w &&& 0x7f)
  else if m.name ∈ Mnemonic.longShiftNames ∧ 63 < w.immI then .error (.immediateRange amount 0 63)
  else if m.name ∈ Mnemonic.wordShiftNames ∧ 31 < w.immI then .error (.immediateRange amount 0 31)
  else .ok w

namespace Instruction

open Mnemonic

theorem check_eq_range_error {x : Instruction} {least most : Int64} (hlabel : x.label = [])
    (hkind : x.mnemonic.imm ≠ .jump) (hrange : x.mnemonic.imm.range? = some (least, most))
    (hout : most.toInt < x.imm.toInt) : check x = .error (.immediateRange x.imm least most) := by
  have hpassed : (decide (x.mnemonic.imm = .jump) && decide (x.imm &&& 3 ≠ 0)) = false := by simp [hkind]
  have hlarge : (decide (x.imm < least) || decide (most < x.imm)) = true := by
    simp [Int64.lt_iff_toInt_lt, hout]
  simp only [check, hlabel, List.isEmpty_nil, Bool.not_true, hpassed, hrange, hlarge, Bool.false_eq_true,
    if_false, if_true]

/-- The short field of an extended immediate is the field it was extended from. -/
theorem ofI_extendImmI (op rt rs : UInt8) (kind : ImmediateKind) {field : UInt16}
    (h : field.toNat < 2 ^ 15) :
    Word.ofI op rt rs (extendImmI kind field).toUInt64.toUInt16 = Word.ofI op rt rs field := by
  have hbits := toNat_toUInt64 (extendImmI kind field)
  have hfield : (extendImmI kind field).toUInt64.toUInt16.toNat % 2 ^ 15 = field.toNat := by
    rw [toInt_extendImmI h] at hbits
    rw [UInt64.toNat_toUInt16]
    split at hbits <;> omega
  apply UInt32.toNat_inj.1
  rw [Word.toNat_ofI, Word.toNat_ofI, hfield, Nat.mod_eq_of_lt h]

section Unpacked

variable {w : Word} {m : Mnemonic}

theorem immI_lt (w : Word) : w.immI.toNat < 2 ^ 15 := by
  rw [Word.toNat_immI]
  omega

/-- A short immediate is packed again if its value fits, whatever way its field was extended. -/
theorem encode_unpack_short (h : w.Carries m) (hf : m.format = .i)
    (hcheck : check (w.unpack m) = .ok ()) : (w.unpack m).encode = .ok w := by
  have hword := ofI_extendImmI w.opcode w.fieldD w.fieldS m.imm (immI_lt w)
  rw [Word.ofI_fields] at hword
  rw [encode, hcheck]
  simp only [Word.unpack, hf, ← h.1, List.isEmpty_nil, if_true, hword]

/-- Only a shift amount can be out of the range of its kind. -/
theorem check_unpack_short (hf : m.format = .i)
    (himm : m.imm ∈ [.signed, .unsigned, .shift64, .shift32, .branch])
    (hlong : m.imm = .shift64 → ¬(63 : UInt16) < w.immI)
    (hword : m.imm = .shift32 → ¬(31 : UInt16) < w.immI) : check (w.unpack m) = .ok () := by
  have hlt := immI_lt w
  have hvalue : (extendImmI m.imm w.immI).toInt = _ := toInt_extendImmI hlt
  rw [check_eq_ok_iff (Word.unpack_label w m)]
  simp only [Word.unpack, hf, hvalue]
  simp only [UInt16.lt_iff_toNat_lt, UInt16.reduceToNat] at hlong hword
  simp only [List.mem_cons, List.not_mem_nil, or_false] at himm
  rcases himm with himm | himm | himm | himm | himm
  all_goals
    rw [himm] at hlong hword ⊢
    simp only [reduceCtorEq, false_implies, true_and, or_false, or_true, or_self, false_and, if_false,
      forall_true_left, ImmediateKind.fits_signed, ImmediateKind.fits_branch, ImmediateKind.fits_unsigned,
      ImmediateKind.fits_shift64, ImmediateKind.fits_shift32] at hlong hword ⊢
  · split <;> omega
  · omega
  · omega
  · omega
  · split <;> omega

/-- A shift amount that is too large is refused. -/
theorem encode_unpack_shift {most : Int64} (hf : m.format = .i) (himm : m.imm = .shift64 ∨ m.imm = .shift32)
    (hrange : m.imm.range? = some (0, most)) (hout : most.toInt < w.immI.toNat) :
    (w.unpack m).encode = .error (.immediateRange w.immI.toUInt64.toInt64 0 most) := by
  have hvalue : extendImmI m.imm w.immI = w.immI.toUInt64.toInt64 := by
    rcases himm with himm | himm <;> rw [himm] <;> rfl
  have hunpack : (w.unpack m).imm = w.immI.toUInt64.toInt64 := by
    simp only [Word.unpack, hf, hvalue]
  have hamount : w.immI.toUInt64.toInt64.toInt = w.immI.toNat := by
    have hlt := immI_lt w
    rw [toInt_toInt64 (by rw [UInt16.toNat_toUInt64]; omega), UInt16.toNat_toUInt64]
  have hcheck : check (w.unpack m) = .error (.immediateRange (w.unpack m).imm 0 most) := by
    refine check_eq_range_error (Word.unpack_label w m) ?_ (by simpa using hrange) ?_
    · rcases himm with himm | himm <;> simp [himm]
    · rw [hunpack, hamount]
      exact hout
  rw [encode, hcheck, hunpack]

theorem encode_unpack_register (h : w.Carries m) (hf : m.format = .r) (himm : m.imm = .none) :
    (w.unpack m).encode = .ok w := by
  have hcheck : check (w.unpack m) = .ok () := by
    rw [check_eq_ok_iff (Word.unpack_label w m)]
    simp [himm]
  rw [encode, hcheck]
  simp only [Word.unpack, hf, ← h.1, ← h.2.1 hf, Word.ofR_fields]

/-- An instruction without operands keeps nothing of its word but the opcode. -/
theorem encode_unpack_bare (h : w.Carries m) (hf : m.format = .j) (hbare : m.operands.isEmpty = true)
    (himm : m.imm = .none) : (w.unpack m).encode = .ok (w &&& 0x7f) := by
  have hcheck : check (w.unpack m) = .ok () := by
    rw [check_eq_ok_iff (Word.unpack_label w m)]
    simp [himm]
  have hword : Word.ofJ w.opcode ((0 : Int64).toUInt64 >>> 2).toUInt32 = w &&& 0x7f :=
    Word.ofJ_opcode_zero w
  rw [encode, hcheck]
  simp only [Word.unpack, hf, hbare, if_true, ← h.1, List.isEmpty_nil, hword]

/-- The byte address of a jump is aligned and in range, and its field is read off it again. -/
theorem encode_unpack_target (h : w.Carries m) (hf : m.format = .j) (htarget : m.operands.isEmpty = false)
    (himm : m.imm = .jump) : (w.unpack m).encode = .ok w := by
  have hlt : w.addrJ.toNat < 2 ^ 25 := by
    rw [Word.toNat_addrJ]
    omega
  have haddr := toNat_target hlt
  have hunpack : (w.unpack m).imm = (w.addrJ.toUInt64 <<< 2).toInt64 := by
    simp only [Word.unpack, hf, htarget, Bool.false_eq_true, if_false]
  have haligned : (w.addrJ.toUInt64 <<< 2).toInt64 &&& 3 = 0 := by
    rw [and_three_eq_zero_iff, UInt64.toUInt64_toInt64, haddr]
    omega
  have hcheck : check (w.unpack m) = .ok () := by
    rw [check_eq_ok_iff (Word.unpack_label w m), hunpack, Word.unpack_mnemonic, himm, ImmediateKind.fits_jump,
      toInt_toInt64 (by omega)]
    exact ⟨fun _ => haligned, by omega⟩
  have hfield : ((w.addrJ.toUInt64 <<< 2).toInt64.toUInt64 >>> 2).toUInt32 = w.addrJ := by
    apply UInt32.toNat_inj.1
    rw [UInt64.toUInt64_toInt64, toNat_wordAddress, haddr]
    omega
  rw [encode, hcheck]
  simp only [Word.unpack, hf, htarget, Bool.false_eq_true, if_false, ← h.1, List.isEmpty_nil, if_true, hfield,
    Word.ofJ_fields]

theorem encode_unpack_slice (h : w.Carries m) (hf : m.format = .ei) (himm : m.imm = .slice) :
    (w.unpack m).encode = .ok w := by
  have hlt := w.immEI.toNat_lt
  have hunpack : (w.unpack m).imm = w.immEI.toUInt64.toInt64 := by simp only [Word.unpack, hf]
  have hvalue : w.immEI.toUInt64.toInt64.toInt = w.immEI.toNat := by
    rw [toInt_toInt64 (by rw [UInt16.toNat_toUInt64]; omega), UInt16.toNat_toUInt64]
  have hcheck : check (w.unpack m) = .ok () := by
    rw [check_eq_ok_iff (Word.unpack_label w m), hunpack, Word.unpack_mnemonic, himm, ImmediateKind.fits_slice,
      hvalue]
    exact ⟨by simp, by omega⟩
  have hfunc : m.func.toUInt8 = w.funcEI := by
    rw [← h.2.2 hf, UInt8.toUInt8_toUInt16]
  have hfield : w.immEI.toUInt64.toInt64.toUInt64.toUInt16 = w.immEI := by simp
  rw [encode, hcheck]
  simp only [Word.unpack, hf, ← h.1, hfunc, List.isEmpty_nil, if_true, hfield, Word.ofEI_fields]

/-- Packing the instruction of a word gives the word back, short of the named exceptions. -/
theorem encode_unpack (hm : m ∈ standard) (hreal : m.isPseudo = false) (h : w.Carries m) :
    (w.unpack m).encode = w.repacked m := by
  obtain ⟨hbares, hlongs, hwords⟩ := standard_names m hm hreal
  simp only [Word.repacked, hbares, hlongs, hwords]
  rcases standard_imm m hm hreal with
    ⟨hf, himm⟩ | ⟨hf, himm⟩ | ⟨hf, hbare, himm⟩ | ⟨hf, htarget, himm⟩ | ⟨hf, himm⟩
  · rw [encode_unpack_register h hf himm]
    simp [hf, himm]
  · simp only [hf, reduceCtorEq, false_and, if_false]
    split
    · rename_i hlong
      have hout : (63 : UInt16).toNat < w.immI.toNat := UInt16.lt_iff_toNat_lt.1 hlong.2
      have hmost : Int64.toInt 63 = (63 : UInt16).toNat := by decide
      exact encode_unpack_shift hf (.inl hlong.1) (by rw [hlong.1]; rfl) (by omega)
    · rename_i hlong
      split
      · rename_i hword
        have hout : (31 : UInt16).toNat < w.immI.toNat := UInt16.lt_iff_toNat_lt.1 hword.2
        have hmost : Int64.toInt 31 = (31 : UInt16).toNat := by decide
        exact encode_unpack_shift hf (.inr hword.1) (by rw [hword.1]; rfl) (by omega)
      · rename_i hword
        exact encode_unpack_short h hf (check_unpack_short hf himm
          (fun hkind hout => hlong ⟨hkind, hout⟩) (fun hkind hout => hword ⟨hkind, hout⟩))
  · rw [encode_unpack_bare h hf hbare himm]
    simp [hf, hbare]
  · rw [encode_unpack_target h hf htarget himm]
    simp [htarget, himm]
  · rw [encode_unpack_slice h hf himm]
    simp [hf, himm]

end Unpacked

/-- A word that is decoded is packed again from its instruction, and a word is refused exactly if no
    real mnemonic has its code. -/
theorem encode_decode_repacked (w : Word) :
    (∀ x, decode Table.standard w = .ok x → x.encode = w.repacked x.mnemonic) ∧
      ((∃ e, decode Table.standard w = .error e) ↔
        ∀ m ∈ standard, m.isPseudo = false → ¬w.Carries m) := by
  constructor
  · intro x hdecode
    obtain ⟨m, hm, hreal, hcarries, rfl⟩ := decode_eq_ok_iff.1 hdecode
    rw [encode_unpack hm hreal hcarries, Word.unpack_mnemonic]
  · constructor
    · rintro ⟨e, herror⟩ m hm hreal hcarries
      rw [decode_of_carries hm hreal hcarries] at herror
      cases herror
    · intro hnone
      cases hdecode : decode Table.standard w with
      | error e => exact ⟨e, rfl⟩
      | ok x =>
          obtain ⟨m, hm, hreal, hcarries, -⟩ := decode_eq_ok_iff.1 hdecode
          exact absurd hcarries (hnone m hm hreal)

/-- A left shift by one bit more than a register has. -/
theorem encode_decode_repacked_longShift :
    let slli := short "slli" 0x13 .shift64 [.rt, .rs, .imm]
    let w := Word.ofI slli.opcode 1 2 64
    ∃ x, decode Table.standard w = .ok x ∧ x.mnemonic = slli ∧
      x.encode = .error (.immediateRange 64 0 63) := by
  intro slli w
  have hdecode : decode Table.standard w = .ok (w.unpack slli) :=
    decode_of_carries (immediateArithmetic_mem (by decide)) rfl
      ⟨by decide, by simp [slli, short], by simp [slli, short]⟩
  have hrefused : w.repacked slli = .error (.immediateRange 64 0 63) := by decide
  have hencode := (encode_decode_repacked w).1 _ hdecode
  rw [Word.unpack_mnemonic, hrefused] at hencode
  exact ⟨_, hdecode, Word.unpack_mnemonic w slli, hencode⟩

end Instruction

end VectorRisc
