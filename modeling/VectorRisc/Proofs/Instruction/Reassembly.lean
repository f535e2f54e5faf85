/-
Module: VectorRisc.Proofs.Instruction.Reassembly
Layer: Proofs
Purpose: The text of an instruction that was read. Operands fill fields of their own, so each can be shown
  from the finished instruction and is read from its text as it was read before. The one text that is not
  read again is that of a negative number in the place of an address, which is shown in hexadecimal with
  its sign behind the mark.
Imports: Mathlib.Tactic, VectorRisc.Proofs.Instruction.Disassembly, VectorRisc.Proofs.Outcome
Trusted boundary: none
Main exports: OperandKind.slots, Instruction.Agree, Instruction.NegativeAddress,
  Instruction.readOperands_again, Instruction.parse_render_parse, Instruction.parse_render_not_always
Open obligations: none
-/
import Mathlib.Tactic
import VectorRisc.Proofs.Instruction.Disassembly
import VectorRisc.Proofs.Outcome

namespace VectorRisc

open Text (isWordByte Separable)

/-! ### Registers and words -/

namespace Register

theorem lt_of_indexOf? {names : List Text} {name : Text} {n : UInt8} (h : indexOf? names name = some n) :
    n.toNat < names.length := by
  obtain ⟨i, hi, rfl⟩ := Option.map_eq_some_iff.1 h
  have hlt := (List.findIdx?_eq_some_iff_getElem.1 hi).1
  rw [UInt8.toNat_ofNat']
  exact lt_of_le_of_lt (Nat.mod_le _ _) hlt

theorem lt_of_scalar? {word : Text} {n : UInt8} (h : scalar? word = some n) : n.toNat < 32 := by
  rw [scalar?] at h
  split at h
  · cases h
  · rcases Option.or_eq_some_iff.1 h with hname | ⟨-, hnumber⟩
    · exact lt_of_indexOf? hname
    · exact lt_of_indexOf? hnumber

theorem lt_of_kernel? {word : Text} {n : UInt8} (h : kernel? word = some n) : n.toNat < 6 := by
  rw [kernel?] at h
  split at h
  · cases h
  · exact lt_of_indexOf? h

theorem lt_of_vector? {word : Text} {n : UInt8} (h : vector? word = some n) : n.toNat < 32 := by
  rw [vector?] at h
  split at h
  · cases h
  · split at h
    · split at h
      · rename_i hlt
        cases h
        rw [UInt8.toNat_ofNat']
        exact lt_of_le_of_lt (Nat.mod_le _ _) hlt
      · cases h
    · cases h

end Register

/-- A label is a plain word. -/
theorem Text.separable_of_isLabel {t : Text} (h : t.isLabel = true) : Separable t := by
  have hbytes : ∀ b : UInt8, isLabelByte b = true → isWordByte b = true := by
    have hall : ∀ n < 256, isLabelByte (UInt8.ofNat n) = true → isWordByte (UInt8.ofNat n) = true := by
      decide +kernel
    intro b
    simpa using hall b.toNat b.toNat_lt
  cases t with
  | nil => cases h
  | cons b rest =>
      rw [isLabel, Bool.and_eq_true, List.all_eq_true] at h
      refine .of_word (List.cons_ne_nil _ _) (List.forall_mem_cons.2 ⟨hbytes b ?_, fun c hc => ?_⟩)
      · simp [isLabelByte, h.1]
      · exact hbytes c (h.2 c hc)

/-- The sign of a negative number stands behind the mark, so that no numeral follows it. -/
theorem Numeral.number?_marked_negative {v : Int} (h : v < 0) : number? (marked v) = none := by
  obtain ⟨n, rfl⟩ := Int.eq_negSucc_of_lt_zero h
  have hmarked : marked (.negSucc n) =
      ascii '0' :: ascii 'x' :: ascii '-' :: natural 16 (n + 1) := rfl
  have hread : readUnsigned (marked (.negSucc n)) = .error .malformed := by
    rw [hmarked, readUnsigned, if_neg (by simp), splitBase, if_pos rfl]
    rfl
  have hhead : (marked (.negSucc n)).head? = some (ascii '0') := by rw [hmarked]; rfl
  have hplain : Literal.looksLikeChar (marked (.negSucc n)) = false := by
    simp [Literal.looksLikeChar, hhead, show ascii '0' ≠ ascii '\'' by decide]
  have hsigned : readSigned (marked (.negSucc n)) = .error .malformed := by
    simp only [readSigned, hhead, Option.some.injEq, show ascii '0' ≠ ascii '-' by decide,
      show ascii '0' ≠ ascii '+' by decide, decide_false, Bool.or_self, Bool.false_eq_true, if_false,
      hread]
  rw [number?, hplain, if_neg Bool.false_ne_true, hsigned, hread]

theorem Numeral.separable_marked_negative {v : Int} (h : v < 0) : Separable (marked v) := by
  obtain ⟨n, rfl⟩ := Int.eq_negSucc_of_lt_zero h
  have hmarked : marked (.negSucc n) =
      ascii '0' :: ascii 'x' :: ascii '-' :: natural 16 (n + 1) := rfl
  rw [hmarked]
  refine .of_word (List.cons_ne_nil _ _) ?_
  exact List.forall_mem_cons.2 ⟨by decide, List.forall_mem_cons.2 ⟨by decide,
    List.forall_mem_cons.2 ⟨by decide, fun _ => isWordByte_of_mem_natural (by norm_num) le_rfl _⟩⟩⟩

/-! ### Fields of operands -/

/-- The fields of an instruction that operands fill: three registers, and the immediate or the label in
    its place. -/
inductive Slot where
  | d
  | s
  | t
  | value
deriving DecidableEq, Repr

/-- The fields that an operand fills. -/
def OperandKind.slots : OperandKind → List Slot
  | .rd | .vd | .kd => [.d]
  | .rs | .vs => [.s]
  | .rt | .vt | .kt => [.t]
  | .imm | .target => [.value]
  | .mem => [.s, .value]
  | .index => [.s, .t]
  | .unknown _ => []

/-- The operands fill fields of their own. -/
def OperandKind.Apart (kind other : OperandKind) : Prop := ∀ slot ∈ kind.slots, slot ∉ other.slots

instance (kind other : OperandKind) : Decidable (kind.Apart other) :=
  inferInstanceAs (Decidable (∀ slot ∈ kind.slots, slot ∉ other.slots))

/-- No two operands of a mnemonic fill the same field, and all are of a known kind. -/
theorem Mnemonic.standard_operands : ∀ m ∈ Mnemonic.standard,
    m.operands.Pairwise OperandKind.Apart ∧ ∀ kind ∈ m.operands, kind ∈ OperandKind.all := by
  decide +kernel

namespace Instruction

/-- Two instructions have the same in a field. -/
def Agree (x y : Instruction) : Slot → Prop
  | .d => x.rd = y.rd
  | .s => x.rs = y.rs
  | .t => x.rt = y.rt
  | .value => x.imm = y.imm ∧ x.label = y.label

theorem Agree.trans {x y z : Instruction} {slot : Slot} (h : x.Agree y slot) (hz : y.Agree z slot) :
    x.Agree z slot := by
  cases slot with
  | value => exact ⟨h.1.trans hz.1, h.2.trans hz.2⟩
  | _ => exact Eq.trans h hz

/-- The text of an operand shows nothing but the operand's fields. -/
theorem operandText_congr {x y : Instruction} {kind : OperandKind} (hmnemonic : x.mnemonic = y.mnemonic)
    (h : ∀ slot ∈ kind.slots, x.Agree y slot) : x.operandText kind = y.operandText kind := by
  cases kind <;> simp_all [OperandKind.slots, Agree, operandText]

theorem agree_withOperand (x y : Instruction) {kind : OperandKind} {slot : Slot}
    (h : slot ∉ kind.slots) : y.Agree (x.withOperand kind y) slot := by
  cases kind <;> cases slot <;> simp_all [OperandKind.slots, Agree, withOperand]

theorem mnemonic_withOperand (x y : Instruction) (kind : OperandKind) :
    (x.withOperand kind y).mnemonic = y.mnemonic := by
  cases kind <;> rfl

/-! ### One operand -/

section Operand

variable {kind : OperandKind} {arg : Text} {y z : Instruction}

theorem exists_of_map_registerOf {find? : Text → Option UInt8} {fill : UInt8 → Instruction}
    (h : (registerOf find? arg).map fill = .ok z) : ∃ n, find? arg = some n ∧ z = fill n := by
  obtain ⟨n, hn, rfl⟩ := map_eq_ok.1 h
  rw [registerOf] at hn
  split at hn
  · cases hn
    exact ⟨_, ‹_›, rfl⟩
  · cases hn

/-- The base register of an operand with parentheses is one. -/
theorem lt_of_registerOf {n : UInt8} (h : registerOf Register.scalar? arg = .ok n) : n.toNat < 32 := by
  rw [registerOf] at h
  split at h
  · cases h
    exact Register.lt_of_scalar? ‹_›
  · cases h

/-- An operand that is read, other than a target, fills its fields with what can be shown. -/
theorem shows_of_readOperand (h : readOperand literal kind arg y = .ok z) (htarget : kind ≠ .target)
    (hknown : kind ∈ OperandKind.all) : z.Shows kind ∧ z.withOperand kind y = z := by
  unfold readOperand at h
  split at h
  · cases h
  · cases kind with
    | target => exact absurd rfl htarget
    | unknown code => simp [OperandKind.all] at hknown
    | imm =>
        obtain ⟨v, -, rfl⟩ := map_eq_ok.1 h
        exact ⟨trivial, rfl⟩
    | mem =>
        simp only at h
        split at h
        · cases h
        · split at h
          · cases h
          · rename_i hbase
            split at h
            · cases h
              exact ⟨lt_of_registerOf hbase, rfl⟩
            · obtain ⟨v, -, rfl⟩ := map_eq_ok.1 h
              exact ⟨lt_of_registerOf hbase, rfl⟩
    | index =>
        simp only at h
        split at h
        · cases h
        · split at h
          · cases h
          · rename_i hbase
            obtain ⟨n, hn, rfl⟩ := exists_of_map_registerOf h
            exact ⟨⟨lt_of_registerOf hbase, Register.lt_of_scalar? hn⟩, rfl⟩
    | rd | rs | rt =>
        obtain ⟨n, hn, rfl⟩ := exists_of_map_registerOf h
        exact ⟨Register.lt_of_scalar? hn, rfl⟩
    | vd | vs | vt =>
        obtain ⟨n, hn, rfl⟩ := exists_of_map_registerOf h
        exact ⟨Register.lt_of_vector? hn, rfl⟩
    | kd | kt =>
        obtain ⟨n, hn, rfl⟩ := exists_of_map_registerOf h
        exact ⟨Register.lt_of_kernel? hn, rfl⟩

/-- A target is a number, or a label that is none. -/
theorem readTarget_cases (h : readOperand literal .target arg y = .ok z) :
    (∃ v, z = { y with imm := v }) ∨
      arg.isLabel = true ∧ literal arg = .ok none ∧ z = { y with label := arg } := by
  simp only [readOperand] at h
  split at h
  · cases h
  · split at h
    · cases h
    · cases h
      exact .inl ⟨_, rfl⟩
    · rename_i hword
      split at h
      · rename_i hlabel
        cases h
        exact .inr ⟨hlabel, hword, rfl⟩
      · cases h

/-- An operand leaves the mnemonic and the fields of others. -/
theorem readOperand_frame (h : readOperand literal kind arg y = .ok z) (hknown : kind ∈ OperandKind.all) :
    z.mnemonic = y.mnemonic ∧ ∀ slot ∉ kind.slots, y.Agree z slot := by
  by_cases htarget : kind = .target
  · subst htarget
    rcases readTarget_cases h with ⟨v, rfl⟩ | ⟨-, -, rfl⟩
    all_goals
      refine ⟨rfl, fun slot hslot => ?_⟩
      cases slot <;> simp_all [OperandKind.slots, Agree]
  · obtain ⟨-, hz⟩ := shows_of_readOperand h htarget hknown
    rw [← hz]
    exact ⟨mnemonic_withOperand z y kind, fun _ => agree_withOperand z y⟩

/-- A negative number stands in the place of an address. -/
def SignedTarget (x : Instruction) : Prop :=
  x.mnemonic.format ≠ .i ∧ x.label = [] ∧ x.imm.toInt < 0

/-- A target is read again from its text, unless it shows a sign behind the mark. -/
theorem readTarget_again (h : readOperand literal .target arg y = .ok z) (hfresh : y.label = []) :
    Separable (z.operandText .target) ∧
      (¬z.SignedTarget → readOperand literal .target (z.operandText .target) y = .ok z) ∧
      (z.SignedTarget → z.operandText .target = Numeral.marked z.imm.toInt ∧
        readOperand literal .target (z.operandText .target) y =
          .error (.notNumber (z.operandText .target))) := by
  rcases readTarget_cases h with ⟨v, rfl⟩ | ⟨hlabel, hword, rfl⟩
  · by_cases hsigned : SignedTarget { y with imm := v }
    · obtain ⟨hformat, -, hnegative⟩ := hsigned
      have htext : operandText { y with imm := v } .target = Numeral.marked v.toInt := by
        simp [operandText, hfresh, hformat]
      have hseparable := Numeral.separable_marked_negative hnegative
      have hnumber := Numeral.number?_marked_negative hnegative
      have hlabel : (Numeral.marked v.toInt).isLabel = false := by
        obtain ⟨n, hn⟩ := Int.eq_negSucc_of_lt_zero hnegative
        rw [hn]
        rfl
      rw [htext]
      refine ⟨hseparable, fun hnot => absurd ⟨hformat, hfresh, hnegative⟩ hnot, fun _ => ⟨rfl, ?_⟩⟩
      simp [readOperand, hseparable.nonempty, literal, hnumber, hlabel]
    · have hshows : Shows { y with imm := v } .target := by
        refine ⟨hfresh, fun hformat => ?_⟩
        by_contra hnegative
        exact hsigned ⟨hformat, hfresh, by simpa using hnegative⟩
      exact ⟨hshows.separable, fun _ => hshows.readOperand_operandText y, fun hnot => absurd hnot hsigned⟩
  · have hseparable := Text.separable_of_isLabel hlabel
    have htext : operandText { y with label := arg } .target = arg := by
      simp [operandText, hseparable.nonempty]
    rw [htext]
    refine ⟨hseparable, fun _ => ?_, fun hsigned => absurd hsigned.2.1 hseparable.nonempty⟩
    simp [readOperand, hseparable.nonempty, hword, hlabel]

end Operand

/-! ### All operands -/

section Operands

variable {kinds : List OperandKind} {args : List Text} {index : Nat} {x y : Instruction}

/-- Operands leave the mnemonic and the fields of others. -/
theorem readOperands_frame (h : readOperands literal index kinds args y = .ok x)
    (hknown : ∀ kind ∈ kinds, kind ∈ OperandKind.all) :
    x.mnemonic = y.mnemonic ∧ ∀ slot, (∀ kind ∈ kinds, slot ∉ kind.slots) → y.Agree x slot := by
  induction kinds generalizing index args y with
  | nil =>
      cases h
      refine ⟨rfl, fun slot _ => ?_⟩
      cases slot <;> simp [Agree]
  | cons kind kinds ih =>
      cases args with
      | nil =>
          cases h
          refine ⟨rfl, fun slot _ => ?_⟩
          cases slot <;> simp [Agree]
      | cons arg args =>
          obtain ⟨hkind, hknown⟩ := List.forall_mem_cons.1 hknown
          rw [readOperands] at h
          split at h
          · cases h
          · rename_i z hz
            obtain ⟨hfirst, hagree⟩ := readOperand_frame hz hkind
            obtain ⟨hrest, hothers⟩ := ih h hknown
            refine ⟨hrest.trans hfirst, fun slot hslot => ?_⟩
            obtain ⟨hhead, htail⟩ := List.forall_mem_cons.1 hslot
            exact (hagree slot hhead).trans (hothers slot htail)

/-- Operands that were read one after the other are read again from the texts that the instruction shows
    for them, up to the first that shows a sign behind the mark. -/
theorem readOperands_again (h : readOperands literal index kinds args y = .ok x)
    (hlength : args.length = kinds.length) (hapart : kinds.Pairwise OperandKind.Apart)
    (hknown : ∀ kind ∈ kinds, kind ∈ OperandKind.all) (hfresh : .target ∈ kinds → y.label = []) :
    (∀ kind ∈ kinds, Separable (x.operandText kind)) ∧
      (¬(.target ∈ kinds ∧ x.SignedTarget) →
        readOperands literal index kinds (kinds.map x.operandText) y = .ok x) ∧
      (.target ∈ kinds → x.SignedTarget → ∃ place,
        readOperands literal index kinds (kinds.map x.operandText) y =
          .error (.operand place (Numeral.marked x.imm.toInt)
            (.notNumber (Numeral.marked x.imm.toInt)))) := by
  induction kinds generalizing index args y with
  | nil =>
      cases h
      exact ⟨by simp, fun _ => rfl, by simp⟩
  | cons kind kinds ih =>
      obtain ⟨arg, args, rfl⟩ := List.exists_cons_of_length_eq_add_one hlength
      obtain ⟨hkind, hknown⟩ := List.forall_mem_cons.1 hknown
      obtain ⟨hothers, hapart⟩ := List.pairwise_cons.1 hapart
      rw [readOperands] at h
      split at h
      · cases h
      · rename_i z hz
        obtain ⟨hmnemonic, hframe⟩ := readOperand_frame hz hkind
        obtain ⟨hsame, hkept⟩ := readOperands_frame h hknown
        -- what follows leaves the fields of the first operand as they were read
        have hagree : ∀ slot ∈ kind.slots, z.Agree x slot := fun slot hslot =>
          hkept slot fun other hother => hothers other hother slot hslot
        have htext : x.operandText kind = z.operandText kind :=
          (operandText_congr hsame.symm hagree).symm
        have hlater : kind = .target → .target ∉ kinds := by
          rintro rfl hmem
          exact hothers _ hmem .value (by simp [OperandKind.slots]) (by simp [OperandKind.slots])
        have hnext : .target ∈ kinds → z.label = [] := by
          intro hmem
          have hvalue : Slot.value ∉ kind.slots := fun hslot =>
            hothers _ hmem .value hslot (by simp [OperandKind.slots])
          rw [← (hframe .value hvalue).2]
          exact hfresh (List.mem_cons_of_mem _ hmem)
        obtain ⟨hseparable, hagain, hbroken⟩ := ih h (by simpa using hlength) hapart hknown hnext
        rw [List.map_cons, readOperands, htext]
        by_cases htarget : kind = .target
        · subst htarget
          obtain ⟨hfirst, hread, hsigned⟩ := readTarget_again hz (hfresh List.mem_cons_self)
          have hvalue := hagree .value (by simp [OperandKind.slots])
          have hiff : x.SignedTarget ↔ z.SignedTarget := by
            rw [SignedTarget, SignedTarget, hsame, hvalue.1, hvalue.2]
          refine ⟨List.forall_mem_cons.2 ⟨htext ▸ hfirst, hseparable⟩, fun hnot => ?_, fun _ hneg => ?_⟩
          · rw [hread fun hneg => hnot ⟨List.mem_cons_self, hiff.2 hneg⟩]
            exact hagain fun hmore => hlater rfl hmore.1
          · obtain ⟨hmarked, herror⟩ := hsigned (hiff.1 hneg)
            rw [herror, hmarked, hvalue.1]
            exact ⟨index, rfl⟩
        · obtain ⟨hshows, hfill⟩ := shows_of_readOperand hz htarget hkind
          have hread : readOperand literal kind (z.operandText kind) y = .ok z := by
            rw [hshows.readOperand_operandText, hfill]
          have hmem : .target ∈ kind :: kinds ↔ .target ∈ kinds := by
            simp [Ne.symm htarget]
          rw [hread, hmem]
          exact ⟨List.forall_mem_cons.2 ⟨htext ▸ hshows.separable, hseparable⟩, hagain, hbroken⟩

end Operands

/-! ### Lines -/

open Mnemonic (standard_valid)

/-- The instruction shows a negative number in the place of an address. -/
def NegativeAddress (x : Instruction) : Prop := .target ∈ x.mnemonic.operands ∧ x.SignedTarget

instance (x : Instruction) : Decidable x.SignedTarget := inferInstanceAs (Decidable (_ ∧ _ ∧ _))

instance (x : Instruction) : Decidable x.NegativeAddress := inferInstanceAs (Decidable (_ ∧ _))

/-- What a line goes through to be read. -/
theorem parse_eq_ok_iff {tb : Table} {resolve : Resolver} {line : Text} {x : Instruction} :
    parse tb resolve line = .ok x ↔ ∃ m, tb.lookup? line.trim.splitWord.1 = some m ∧
      line.trim.splitWord.2.splitOperands.length = m.operands.length ∧
      readOperands resolve 0 m.operands line.trim.splitWord.2.splitOperands { mnemonic := m } = .ok x ∧
      check x = .ok () := by
  simp only [parse]
  cases tb.lookup? line.trim.splitWord.1 with
  | none => simp
  | some m =>
      by_cases hcount : line.trim.splitWord.2.splitOperands.length = m.operands.length
      · cases hread : readOperands resolve 0 m.operands line.trim.splitWord.2.splitOperands
            { mnemonic := m } with
        | error e => simp [hcount, hread]
        | ok y =>
            simp only [hcount, ne_eq, not_true_eq_false, if_false, hread, map_eq_ok, Option.some.injEq,
              exists_eq_left', true_and, Except.ok.injEq]
            constructor
            · rintro ⟨_, hcheck, rfl⟩
              exact ⟨rfl, hcheck⟩
            · rintro ⟨rfl, hcheck⟩
              exact ⟨(), hcheck, rfl⟩
      · simp [hcount]

/-- An operand that is refused ends the reading of a line. -/
theorem parse_eq_error {tb : Table} {resolve : Resolver} {line : Text} {m : Mnemonic} {e : Error}
    (hlookup : tb.lookup? line.trim.splitWord.1 = some m)
    (hcount : line.trim.splitWord.2.splitOperands.length = m.operands.length)
    (hread : readOperands resolve 0 m.operands line.trim.splitWord.2.splitOperands { mnemonic := m } =
      .error e) : parse tb resolve line = .error e := by
  simp only [parse, hlookup, hcount, ne_eq, not_true_eq_false, if_false, hread]

/-- The text of an instruction that was read is read as the same instruction, exactly if it shows no
    negative number in the place of an address. Where it does, the text is refused for that operand: its
    sign stands behind the mark of a hexadecimal number. -/
theorem parse_render_parse {line : Text} {x : Instruction}
    (h : parse Table.standard literal line = .ok x) :
    (parse Table.standard literal x.render = .ok x ↔ ¬x.NegativeAddress) ∧
      (x.NegativeAddress → ∃ place, parse Table.standard literal x.render =
        .error (.operand place (Numeral.marked x.imm.toInt) (.notNumber (Numeral.marked x.imm.toInt)))) := by
  obtain ⟨m, hfound, hcount, hread, hcheck⟩ := parse_eq_ok_iff.1 h
  obtain ⟨hm, -⟩ := standard_valid.lookup?_eq_some_iff.1 hfound
  obtain ⟨hapart, hknown⟩ := Mnemonic.standard_operands m hm
  obtain ⟨hvisible, hne⟩ := standard_visible m hm
  rw [List.all_eq_true] at hvisible
  have hmnemonic : x.mnemonic = m := (readOperands_frame hread hknown).1
  have hlookup : Table.standard.lookup? m.name = some m :=
    standard_valid.lookup?_eq_some_iff.2 ⟨hm, rfl⟩
  obtain ⟨hseparable, hagain, hbroken⟩ := readOperands_again hread hcount hapart hknown fun _ => rfl
  obtain ⟨rest, hsplit, hoperands⟩ := split_render (x := x) (by simpa [hmnemonic] using hseparable)
    (by simpa [hmnemonic] using hvisible) (by simpa [hmnemonic] using hne)
  rw [hmnemonic] at hsplit hoperands
  have hnegative : x.NegativeAddress ↔ .target ∈ m.operands ∧ x.SignedTarget := by
    rw [NegativeAddress, hmnemonic]
  rw [hnegative]
  have hrefused : .target ∈ m.operands ∧ x.SignedTarget → ∃ place,
      parse Table.standard literal x.render = .error
        (.operand place (Numeral.marked x.imm.toInt) (.notNumber (Numeral.marked x.imm.toInt))) := by
    rintro ⟨htarget, hsigned⟩
    obtain ⟨place, herror⟩ := hbroken htarget hsigned
    exact ⟨place, parse_eq_error (by rw [hsplit, hlookup]) (by rw [hsplit, hoperands, List.length_map])
      (by rw [hsplit, hoperands, herror])⟩
  refine ⟨⟨fun hparse hsigned => ?_, fun hnot => ?_⟩, hrefused⟩
  · obtain ⟨place, herror⟩ := hrefused hsigned
    rw [hparse] at herror
    cases herror
  · refine parse_eq_ok_iff.2 ⟨m, by rw [hsplit, hlookup], ?_, ?_, hcheck⟩
    · rw [hsplit, hoperands, List.length_map]
    · rw [hsplit, hoperands, hagain hnot]

/-- The load of a negative number. -/
def signedLoad : Instruction := { mnemonic := .expanded "la" [.rd, .target], rd := 10, imm := -5 }

theorem parse_signedLoad : parse Table.standard literal (Text.ofString "la %t0, -5") = .ok signedLoad := by
  decide +kernel

/-- A jump to a label is read again from its text. The load of a negative number is shown as `0x-5` and
    refused. -/
theorem parse_render_parse_signedLoad :
    (∃ x, parse Table.standard literal (Text.ofString "j loop") = .ok x ∧
      x.label = Text.ofString "loop" ∧ parse Table.standard literal x.render = .ok x) ∧
    parse Table.standard literal (Text.ofString "la %t0, -5") = .ok signedLoad ∧
      signedLoad.render = Text.ofString "la %t0, 0x-5" ∧
      ∃ place, parse Table.standard literal signedLoad.render =
        .error (.operand place (Text.ofString "0x-5") (.notNumber (Text.ofString "0x-5"))) := by
  let jump : Instruction := { mnemonic := .jump "j" 0x03 [.target], label := Text.ofString "loop" }
  have hjump : parse Table.standard literal (Text.ofString "j loop") = .ok jump := by
    decide +kernel
  exact ⟨⟨jump, hjump, rfl, (parse_render_parse hjump).1.2 (by decide)⟩,
    parse_signedLoad, by decide, (parse_render_parse parse_signedLoad).2 (by decide)⟩

/-- Not every line that is read gives a text that is read. -/
theorem parse_render_not_always : ¬∀ line x, parse Table.standard literal line = .ok x →
    parse Table.standard literal x.render = .ok x := by
  intro h
  have hrefused : parse Table.standard literal signedLoad.render ≠ .ok signedLoad := by
    decide +kernel
  exact hrefused (h _ _ parse_signedLoad)

end Instruction

end VectorRisc
