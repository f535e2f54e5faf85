/-
Module: VectorRisc.Proofs.Instruction.Code
Layer: Proofs
Purpose: The codes of an instruction set tell its mnemonics apart. An opcode belongs to one layout and a
  code to one mnemonic, so a word is decoded exactly if it carries the code of a real mnemonic, and then
  to the fields that the layout of that mnemonic has. The machine's instruction set is valid, and in every
  table that is accepted the word of an instruction is decoded to its own mnemonic.
Imports: Mathlib.Tactic, VectorRisc.Bytes, VectorRisc.Instruction.Basic,
  VectorRisc.Proofs.Instruction.Table, VectorRisc.Proofs.Instruction.Word
Trusted boundary: none
Main exports: Mnemonic.standard_fits, Mnemonic.standard_imm, Mnemonic.standard_valid, Word.Carries,
  Word.unpack, Instruction.decode_eq_unpack, Instruction.decode_of_carries, Instruction.decode_eq_ok_iff,
  Instruction.carries_of_decode, Instruction.carries_of_encode, Table.ofList_exact
Open obligations: none
-/
import Mathlib.Tactic
import VectorRisc.Bytes
import VectorRisc.Instruction.Basic
import VectorRisc.Proofs.Instruction.Table
import VectorRisc.Proofs.Instruction.Word

namespace VectorRisc

/-! ### Codes that have room -/

namespace Mnemonic.Fits

variable {m : Mnemonic}

theorem opcode_and (h : m.Fits) : m.opcode &&& 0x7f = m.opcode := by
  have hopcode : m.opcode.toNat ≤ 127 := h.1
  apply UInt8.toNat_inj.1
  rw [Word.toNat_and_mask8 m.opcode (n := 7) rfl]
  omega

theorem func_and (h : m.Fits) (hf : m.format = .r) : m.func &&& 0x3ff = m.func := by
  have hfunc : m.func.toNat ≤ 1023 := h.2.2.1 hf
  apply UInt16.toNat_inj.1
  rw [Word.toNat_and_mask16 m.func (n := 10) rfl]
  omega

theorem slice_and (h : m.Fits) (hf : m.format = .ei) : (m.func.toUInt8 &&& 0xf).toUInt16 = m.func := by
  have hfunc : m.func.toNat ≤ 15 := h.2.2.2 hf
  apply UInt16.toNat_inj.1
  rw [UInt8.toNat_toUInt16, Word.toNat_and_mask8 m.func.toUInt8 (n := 4) rfl, UInt16.toNat_toUInt8]
  omega

end Mnemonic.Fits

namespace Mnemonic

/-! ### The instruction set -/

/-- The layout that the machine gives to an opcode. -/
def layoutOf (opcode : UInt8) : Format :=
  if opcode < 2 then .r else if opcode = 2 then .ei else if opcode < 7 then .j else .i

set_option maxRecDepth 4000 in
/-- Real mnemonics fit their layouts, which their opcodes name. -/
theorem standard_fits : ∀ m ∈ standard, m.isPseudo = false →
    m.Fits ∧ m.format = layoutOf m.opcode ∧ m.func &&& 0x3ff = m.func := by
  decide

/-- The codes of the instruction set fit the fields of a word. -/
theorem standard_code (m : Mnemonic) (hm : m ∈ standard) (hreal : m.isPseudo = false) :
    m.opcode &&& 0x7f = m.opcode ∧ m.func &&& 0x3ff = m.func ∧
      (m.format = .ei → (m.func.toUInt8 &&& 0xf).toUInt16 = m.func) := by
  obtain ⟨hfits, -, hfunc⟩ := standard_fits m hm hreal
  exact ⟨hfits.opcode_and, hfunc, hfits.slice_and⟩

set_option maxRecDepth 4000 in
/-- The immediate that a mnemonic of each layout has. -/
theorem standard_imm : ∀ m ∈ standard, m.isPseudo = false →
    (m.format = .r ∧ m.imm = .none) ∨
    (m.format = .i ∧ m.imm ∈ [.signed, .unsigned, .shift64, .shift32, .branch]) ∨
    (m.format = .j ∧ m.operands.isEmpty = true ∧ m.imm = .none) ∨
    (m.format = .j ∧ m.operands.isEmpty = false ∧ m.imm = .jump) ∨
    (m.format = .ei ∧ m.imm = .slice) := by
  decide

/-- The code of a mnemonic as one number. -/
def codeNumber (m : Mnemonic) : Nat := (Table.codeOf m).1.toNat * 65536 + (Table.codeOf m).2.toNat

/-- The real mnemonics stand in the order of their codes. -/
theorem standard_ascending : ((standard.filter fun m => !m.isPseudo).map codeNumber).IsChain (· < ·) := by
  decide +kernel

/-- No number of a list occurs twice, and none is among those whose bits are set. -/
def freshIn : (seen : Nat) → List Nat → Bool
  | _, [] => true
  | seen, n :: rest => !seen.testBit n && freshIn (seen ||| 2 ^ n) rest

theorem nodup_of_freshIn {list : List Nat} {seen : Nat} (h : freshIn seen list = true) :
    list.Nodup ∧ ∀ n ∈ list, seen.testBit n = false := by
  induction list generalizing seen with
  | nil => simp
  | cons n rest ih =>
      simp only [freshIn, Bool.and_eq_true, Bool.not_eq_true'] at h
      obtain ⟨hnodup, hfree⟩ := ih h.2
      simp only [Nat.testBit_or, Nat.testBit_two_pow, Bool.or_eq_false_iff, decide_eq_false_iff_not] at hfree
      refine ⟨List.nodup_cons.2 ⟨fun hn => (hfree n hn).2 rfl, hnodup⟩, ?_⟩
      exact List.forall_mem_cons.2 ⟨h.1, fun m hm => (hfree m hm).1⟩

/-- No two mnemonics share a name. Names are told apart by a remainder that they leave as numbers, which
    takes less time than each with each. -/
theorem standard_distinct : (standard.map name).Nodup := by
  have hfresh : freshIn 0 ((standard.map name).map fun t => Bytes.toNat t % 65521) = true := by
    decide +kernel
  exact (nodup_of_freshIn hfresh).1.of_map

/-- The layouts of the instruction set are known ones. -/
theorem standard_known (m : Mnemonic) (hm : m ∈ standard) : m.format.Known := by
  by_cases hreal : m.isPseudo = false
  · rcases standard_imm m hm hreal with ⟨h, -⟩ | ⟨h, -⟩ | ⟨h, -⟩ | ⟨h, -⟩ | ⟨h, -⟩
    all_goals simp [h, Format.Known]
  · have hpseudo : m.format = .pseudo := by simpa [isPseudo] using hreal
    simp [hpseudo, Format.Known]

/-- Real mnemonics of one opcode share a layout, and their codes ascend, so that function codes tell them
    apart. -/
theorem standard_apart :
    standard.Pairwise fun a b => a.isPseudo = false → b.isPseudo = false → a.StandsBeside b := by
  have hcodes := List.isChain_iff_pairwise.1 standard_ascending
  rw [List.pairwise_map, List.pairwise_filter] at hcodes
  refine hcodes.imp_of_mem fun {a b} ha hb hbelow hreala hrealb hop => ?_
  have hlayout : a.format = b.format := by
    rw [(standard_fits a ha hreala).2.1, (standard_fits b hb hrealb).2.1, hop]
  have hcode : Table.codeOf a ≠ Table.codeOf b := by
    intro hsame
    have hless := hbelow (by simp [hreala]) (by simp [hrealb])
    rw [codeNumber, codeNumber, hsame] at hless
    exact lt_irrefl _ hless
  have hfunc : a.format.HasFunc := by
    by_contra hbare
    rcases standard_imm a ha hreala with ⟨h, -⟩ | ⟨h, -⟩ | ⟨h, -⟩ | ⟨h, -⟩ | ⟨h, -⟩
    · exact hbare (.inl h)
    · exact hcode (by rw [Table.codeOf, Table.codeOf, ← hlayout, h, hop])
    · exact hcode (by rw [Table.codeOf, Table.codeOf, ← hlayout, h, hop])
    · exact hcode (by rw [Table.codeOf, Table.codeOf, ← hlayout, h, hop])
    · exact hbare (.inr h)
  refine ⟨hlayout, hfunc, fun hsame => hcode ?_⟩
  rw [Table.codeOf_of_hasFunc hfunc, Table.codeOf_of_hasFunc (hlayout ▸ hfunc), hop, hsame]

theorem standard_valid : Table.Valid standard :=
  ⟨standard_distinct, fun m hm hreal => (standard_fits m hm hreal).1, standard_apart⟩

/-! ### Parts of the instruction set -/

theorem immediateSlice_mem {m : Mnemonic} (hm : m ∈ immediateSlices) : m ∈ standard :=
  List.mem_append_left _ (List.mem_append_left _ (List.mem_append_left _ (List.mem_append_left _
    (List.mem_append_left _ (List.mem_append_right _ hm)))))

theorem control_mem {m : Mnemonic} (hm : m ∈ control) : m ∈ standard :=
  List.mem_append_left _ (List.mem_append_left _ (List.mem_append_left _ (List.mem_append_left _
    (List.mem_append_right _ hm))))

theorem immediateArithmetic_mem {m : Mnemonic} (hm : m ∈ immediateArithmetic) : m ∈ standard :=
  List.mem_append_left _ (List.mem_append_left _ (List.mem_append_left _ (List.mem_append_right _ hm)))

theorem branch_mem {m : Mnemonic} (hm : m ∈ branches) : m ∈ standard :=
  List.mem_append_left _ (List.mem_append_left _ (List.mem_append_right _ hm))

end Mnemonic

/-! ### The mnemonic of a word -/

/-- The word has the opcode of a mnemonic, and its function code where the layout has one. -/
def Word.Carries (w : Word) (m : Mnemonic) : Prop :=
  w.opcode = m.opcode ∧ (m.format = .r → w.funcR = m.func) ∧
    (m.format = .ei → w.funcEI.toUInt16 = m.func)

/-- The instruction that a word is, for a mnemonic whose code it carries. -/
def Word.unpack (w : Word) (m : Mnemonic) : Instruction :=
  match m.format with
  | .r => { mnemonic := m, rd := w.fieldD, rs := w.fieldS, rt := w.fieldT }
  | .i => { mnemonic := m, rt := w.fieldD, rs := w.fieldS, imm := Instruction.extendImmI m.imm w.immI }
  | .j =>
    if m.operands.isEmpty then { mnemonic := m }
    else { mnemonic := m, imm := (w.addrJ.toUInt64 <<< 2).toInt64 }
  | .ei => { mnemonic := m, rd := w.fieldD, imm := w.immEI.toUInt64.toInt64 }
  | .pseudo | .unknown _ => { mnemonic := m }

@[simp] theorem Word.unpack_mnemonic (w : Word) (m : Mnemonic) : (w.unpack m).mnemonic = m := by
  rw [unpack]
  split
  case h_3 => split <;> rfl
  all_goals rfl

@[simp] theorem Word.unpack_label (w : Word) (m : Mnemonic) : (w.unpack m).label = [] := by
  rw [unpack]
  split
  case h_3 => split <;> rfl
  all_goals rfl

namespace Instruction

open Mnemonic

/-- A word that carries the code of a real mnemonic of an instruction set is an instruction of it. -/
theorem decode_eq_unpack {list : List Mnemonic} (hvalid : Table.Valid list)
    (hknown : ∀ m ∈ list, m.format.Known) {m : Mnemonic} (hm : m ∈ list) (hreal : m.isPseudo = false)
    {w : Word} (h : w.Carries m) : decode ⟨list⟩ w = .ok (w.unpack m) := by
  obtain ⟨hop, hr, hei⟩ := h
  have hformat := hvalid.format?_eq hm hreal
  have hcode (func : UInt16) (hfunc : m.format.HasFunc → func = m.func) :
      Table.byCode? ⟨list⟩ m.opcode func = some m := hvalid.byCode?_eq hknown hm hreal hfunc
  have hlayout := hknown m hm
  simp only [Format.Known, List.mem_cons, List.not_mem_nil, or_false] at hlayout
  rcases hlayout with hf | hf | hf | hf | hf
  · have hfound := hcode w.funcR fun _ => hr hf
    simp only [decode, Word.unpack, hop, hformat, hf, hfound]
  · have hfound := hcode 0 (by simp [Format.HasFunc, hf])
    simp only [decode, Word.unpack, hop, hformat, hf, hfound]
  · have hfound := hcode 0 (by simp [Format.HasFunc, hf])
    simp only [decode, Word.unpack, hop, hformat, hf, hfound]
    split <;> rfl
  · have hfound := hcode w.funcEI.toUInt16 fun _ => hei hf
    simp only [decode, Word.unpack, hop, hformat, hf, hfound]
  · rw [isPseudo, hf] at hreal
    cases hreal

theorem decode_of_carries {m : Mnemonic} (hm : m ∈ standard) (hreal : m.isPseudo = false) {w : Word}
    (h : w.Carries m) : decode Table.standard w = .ok (w.unpack m) :=
  decode_eq_unpack standard_valid standard_known hm hreal h

/-- A mnemonic that is found by the fields of a word has its code in the word. -/
theorem carries_of_byCode? {w : Word} {format : Format} {func : UInt16} {m : Mnemonic}
    (hformat : Table.standard.format? w.opcode = some format) (hr : format = .r → func = w.funcR)
    (hei : format = .ei → func = w.funcEI.toUInt16)
    (hfound : Table.standard.byCode? w.opcode func = some m) :
    m ∈ standard ∧ m.isPseudo = false ∧ w.Carries m := by
  have hcode : m ∈ standard ∧ m.isPseudo = false ∧ (Table.codeOf m).1 = w.opcode ∧
      (format = .r ∨ format = .ei → (Table.codeOf m).2 = func) := by
    simp only [Table.byCode?, hformat] at hfound
    split at hfound
    · contradiction
    · rename_i hshort
      cases hshort
      obtain ⟨hm, hreal, hcode⟩ := Table.findCode?_eq_some hfound
      exact ⟨hm, hreal, by rw [hcode], by simp⟩
    · rename_i hshort
      cases hshort
      obtain ⟨hm, hreal, hcode⟩ := Table.findCode?_eq_some hfound
      exact ⟨hm, hreal, by rw [hcode], by simp⟩
    · obtain ⟨hm, hreal, hcode⟩ := Table.findCode?_eq_some hfound
      exact ⟨hm, hreal, by rw [hcode], fun _ => by rw [hcode]⟩
  obtain ⟨hm, hreal, hop, hfunc⟩ := hcode
  have hown : Table.standard.format? m.opcode = some m.format := standard_valid.format?_eq hm hreal
  -- the opcode is that of the mnemonic, so the layout is that of the mnemonic too
  have hopcode : m.opcode = w.opcode := by
    rcases standard_imm m hm hreal with ⟨h, -⟩ | ⟨h, -⟩ | ⟨h, -⟩ | ⟨h, -⟩ | ⟨h, -⟩
    all_goals
      rw [Table.codeOf, h] at hop
      exact hop
  rw [hopcode, hformat, Option.some.injEq] at hown
  refine ⟨hm, hreal, hopcode.symm, ?_, ?_⟩
  · intro h
    have hsame := hfunc (.inl (hown.trans h))
    rw [Table.codeOf, h] at hsame
    rw [← hr (hown.trans h)]
    exact hsame.symm
  · intro h
    have hsame := hfunc (.inr (hown.trans h))
    rw [Table.codeOf, h] at hsame
    rw [← hei (hown.trans h)]
    exact hsame.symm

/-- A word is decoded exactly if a real mnemonic has its code, and to what the word is then. -/
theorem decode_eq_ok_iff {w : Word} {x : Instruction} :
    decode Table.standard w = .ok x ↔
      ∃ m ∈ standard, m.isPseudo = false ∧ w.Carries m ∧ x = w.unpack m := by
  constructor
  · intro h
    have hdecode := h
    simp only [decode] at h
    split at h
    · cases h
    · rename_i format hformat
      split at h
      · cases h
      · rename_i m hcode
        obtain ⟨hm, hreal, hcarries⟩ := carries_of_byCode? hformat
          (by rintro rfl; rfl) (by rintro rfl; rfl) hcode
        refine ⟨m, hm, hreal, hcarries, ?_⟩
        rw [decode_of_carries hm hreal hcarries] at hdecode
        exact (Except.ok.inj hdecode).symm
  · rintro ⟨m, hm, hreal, hcarries, rfl⟩
    exact decode_of_carries hm hreal hcarries

/-- A word that is decoded carries the code of its mnemonic. -/
theorem carries_of_decode {w : Word} {x : Instruction} (h : decode Table.standard w = .ok x) :
    w.Carries x.mnemonic := by
  obtain ⟨m, -, -, hcarries, rfl⟩ := decode_eq_ok_iff.1 h
  rw [Word.unpack_mnemonic]
  exact hcarries

end Instruction

/-! ### Instruction sets that are accepted -/

/-- The word of an instruction carries its mnemonic. -/
theorem Instruction.carries_of_encode {x : Instruction} (hfits : x.mnemonic.Fits) {w : Word}
    (h : x.encode = .ok w) : w.Carries x.mnemonic := by
  simp only [encode] at h
  split at h
  · cases h
  · split at h
    all_goals rename_i hf
    all_goals cases h
    · exact ⟨by simpa using hfits.opcode_and, by simpa using hfits.func_and, by simp [hf]⟩
    · exact ⟨by simpa using hfits.opcode_and, by simp [hf], by simp [hf]⟩
    · exact ⟨by simpa using hfits.opcode_and, by simp [hf], by simp [hf]⟩
    · exact ⟨by simpa using hfits.opcode_and, by simp [hf], by simpa using hfits.slice_and⟩

namespace Table

/-- A list of mnemonics with known layouts is accepted exactly if names are distinct, real mnemonics fit
    their layouts, and real mnemonics with one opcode share a layout with function codes, which differ. In
    a table that is accepted every name finds its own mnemonic, and the word of an instruction, whatever
    its registers and its immediate are, is decoded to its own mnemonic. -/
theorem ofList_exact (list : List Mnemonic) (hknown : ∀ m ∈ list, m.format.Known) :
    ((∃ tb, ofList list = .ok tb) ↔ Valid list) ∧
    ∀ tb, ofList list = .ok tb →
      (∀ name m, tb.lookup? name = some m ↔ m ∈ list ∧ m.name = name) ∧
      ∀ x : Instruction, x.mnemonic ∈ list → x.mnemonic.isPseudo = false → ∀ w, x.encode = .ok w →
        ∃ y, Instruction.decode tb w = .ok y ∧ y.mnemonic = x.mnemonic := by
  constructor
  · constructor
    · rintro ⟨tb, htable⟩
      exact ((ofList_eq_ok_iff hknown).1 htable).2
    · intro hvalid
      exact ⟨⟨list⟩, (ofList_eq_ok_iff hknown).2 ⟨rfl, hvalid⟩⟩
  · intro tb htable
    obtain ⟨rfl, hvalid⟩ := (ofList_eq_ok_iff hknown).1 htable
    refine ⟨fun name m => hvalid.lookup?_eq_some_iff, ?_⟩
    intro x hx hreal w hencode
    have hcarries := Instruction.carries_of_encode (hvalid.fits _ hx hreal) hencode
    exact ⟨_, Instruction.decode_eq_unpack hvalid hknown hx hreal hcarries, Word.unpack_mnemonic w _⟩

/-- Two mnemonics on each of the opcodes with function codes, one with an opcode of its own that is the
    largest there is, and one without a word. -/
def sharedCodes : List Mnemonic :=
  [.scalar "add" 0x3ff [.rd, .rs, .rt], .slice "li.0" 0 [.rd, .target],
    .short "addi" 0x7f .signed [.rt, .rs, .imm], .slice "li.f" 0xf [.rd, .target],
    .expanded "mov" [.rd, .rs], .scalar "sub" 0 [.rd, .rs, .rt]]

theorem ofList_exact_sharedCodes :
    let last := Mnemonic.slice "li.f" 0xf [.rd, .target]
    Valid sharedCodes ∧ ∃ tb, ofList sharedCodes = .ok tb ∧ tb.lookup? last.name = some last ∧
      ∃ y, Instruction.decode tb (Word.ofEI 2 0xf 31 0xffff) = .ok y ∧ y.mnemonic = last := by
  intro last
  have hvalid : Valid sharedCodes := by decide +kernel
  obtain ⟨haccepted, htables⟩ := ofList_exact sharedCodes (by decide +kernel)
  obtain ⟨tb, htable⟩ := haccepted.2 hvalid
  obtain ⟨hnames, hwords⟩ := htables tb htable
  refine ⟨hvalid, tb, htable, (hnames _ _).2 ⟨by decide +kernel, rfl⟩, ?_⟩
  exact hwords { mnemonic := last, rd := 31, imm := -1 } (by decide +kernel) rfl _ (by decide +kernel)

end Table

end VectorRisc
