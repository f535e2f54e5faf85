/-
Module: VectorRisc.Proofs.Instruction.Disassembly
Layer: Proofs
Purpose: The text of an instruction reads back. Each operand is read from its own text with the value that
  was written, so the line of an instruction gives the instruction again, as far as its operands show it,
  and the text of a word is assembled to the word with all bits cleared that it does not show.
Imports: Mathlib.Tactic, VectorRisc.Proofs.Instruction.Field, VectorRisc.Proofs.Numeral.Integer,
  VectorRisc.Proofs.Text.Operands
Trusted boundary: none
Main exports: Register.Named, Register.named_scalar, Register.named_vector, Register.named_kernel,
  Instruction.Shows, Instruction.Shows.readOperand_operandText, Instruction.Showable, Instruction.parse_render,
  Instruction.parse_render_decode
Open obligations: none
-/
import Mathlib.Tactic
import VectorRisc.Proofs.Instruction.Field
import VectorRisc.Proofs.Numeral.Integer
import VectorRisc.Proofs.Text.Operands

namespace VectorRisc

open Text (isWordByte Separable)

/-! ### Plain words -/

/-- The digits of a number are a plain word. -/
theorem Numeral.isWordByte_of_mem_natural {base : Nat} (hbase : 1 < base) (hsixteen : base ≤ 16) (n : Nat)
    {b : UInt8} (hb : b ∈ natural base n) : isWordByte b = true := by
  have hdigits : ∀ d < 16, isWordByte (ascii (Nat.digitChar d)) = true := by decide
  obtain ⟨d, hd, rfl⟩ := exists_digit_of_mem_natural hbase hsixteen n hb
  exact hdigits d hd

theorem Numeral.separable_decimal (v : Int) : Separable (decimal v) := by
  have hbytes := @isWordByte_of_mem_natural 10 (by norm_num) (by norm_num)
  cases v with
  | ofNat n => exact .of_word (natural_ne_nil (by norm_num) n) fun _ => hbytes n
  | negSucc n =>
      refine .of_word (List.cons_ne_nil _ _) ?_
      exact List.forall_mem_cons.2 ⟨by decide, fun _ => hbytes (n + 1)⟩

theorem Numeral.separable_marked (n : Nat) : Separable (marked n) := by
  have hmarked : marked n = ascii '0' :: ascii 'x' :: natural 16 n := rfl
  rw [hmarked]
  refine .of_word (List.cons_ne_nil _ _) ?_
  exact List.forall_mem_cons.2 ⟨by decide, List.forall_mem_cons.2 ⟨by decide, fun _ =>
    isWordByte_of_mem_natural (by norm_num) le_rfl n⟩⟩

/-! ### Registers -/

namespace Register

/-- The name that a register file gives to a number is a plain word and finds the number again. -/
def Named (find? : Text → Option UInt8) (name : UInt8 → Text) (n : UInt8) : Prop :=
  find? (name n) = some n ∧ name n ≠ [] ∧ (name n).all isWordByte = true

instance (find? : Text → Option UInt8) (name : UInt8 → Text) (n : UInt8) : Decidable (Named find? name n) :=
  inferInstanceAs (Decidable (_ ∧ _ ∧ _))

namespace Named

variable {find? : Text → Option UInt8} {name : UInt8 → Text} {n : UInt8}

/-- A register file is small enough to be tried out. -/
theorem of_lt {bound : Nat} (h : ∀ i < bound, Named find? name (UInt8.ofNat i)) (hn : n.toNat < bound) :
    Named find? name n := by
  have hnumber := h n.toNat hn
  rwa [UInt8.ofNat_toNat] at hnumber

theorem isWordByte_of_mem (h : Named find? name n) {b : UInt8} (hb : b ∈ name n) : isWordByte b = true :=
  List.all_eq_true.1 h.2.2 b hb

theorem separable (h : Named find? name n) : Separable (name n) := .of_word h.2.1 fun _ => h.isWordByte_of_mem

theorem registerOf_eq (h : Named find? name n) : Instruction.registerOf find? (name n) = .ok n := by
  rw [Instruction.registerOf, h.1]

/-- A field is filled with the number of the register that was named. -/
theorem map_registerOf (h : Named find? name n) (fill : UInt8 → Instruction) :
    (Instruction.registerOf find? (name n)).map fill = .ok (fill n) := by
  rw [h.registerOf_eq]
  rfl

end Named

theorem named_scalar {n : UInt8} (h : n.toNat < 32) : Named scalar? scalarName n :=
  .of_lt (by decide) h

theorem named_kernel {n : UInt8} (h : n.toNat < 6) : Named kernel? kernelName n :=
  .of_lt (by decide) h

theorem named_vector {n : UInt8} (h : n.toNat < 32) : Named vector? vectorName n := by
  have hname : vectorName n = ascii '%' :: ascii 'y' :: Numeral.natural 10 n.toNat := by
    rw [vectorName, Nat.mod_eq_of_lt h]
  refine ⟨?_, List.cons_ne_nil _ _, ?_⟩
  · have hdigits (t : Text) : Text.after? (Text.ofString "%y") (ascii '%' :: ascii 'y' :: t) = some t := rfl
    rw [hname, vector?, hdigits]
    simp only [Numeral.readPlain_natural (by omega : n.toNat ≤ 255), vectorCount, if_pos h, UInt8.ofNat_toNat]
  · rw [hname, List.all_eq_true]
    exact List.forall_mem_cons.2 ⟨by decide, List.forall_mem_cons.2 ⟨by decide, fun _ =>
      Numeral.isWordByte_of_mem_natural (by norm_num) (by norm_num) _⟩⟩

end Register

namespace Instruction

/-! ### Operands -/

theorem cutLastParen?_append {outer tail : Text} (hparen : ascii '(' ∉ tail) :
    cutLastParen? (outer ++ ascii '(' :: tail) = some (outer, tail) := by
  have hflat : ∀ b ∈ tail.reverse, decide (b ≠ ascii '(') = true := by
    intro b hb
    rw [List.mem_reverse] at hb
    simpa using fun h : b = ascii '(' => hparen (h ▸ hb)
  have htail : ((outer ++ ascii '(' :: tail).reverse.takeWhile (· ≠ ascii '(')).reverse = tail := by
    rw [List.reverse_append, List.reverse_cons, List.append_assoc, List.singleton_append,
      List.takeWhile_append_of_pos hflat, List.takeWhile_cons_of_neg (by simp), List.append_nil,
      List.reverse_reverse]
  have hlength : (outer ++ ascii '(' :: tail).length - tail.length - 1 = outer.length := by
    rw [List.length_append, List.length_cons]
    omega
  simp only [cutLastParen?, htail, hlength, List.take_left]
  rw [if_pos (by simp)]

/-- The parts of an operand with another one in parentheses behind it. -/
theorem cutIndexed?_append {outer inner : Text} (houter : outer.trim = outer) (hinner : inner.trim = inner)
    (hparen : ascii '(' ∉ inner) :
    cutIndexed? (outer ++ [ascii '('] ++ inner ++ [ascii ')']) = some (outer, inner) := by
  have harg : outer ++ [ascii '('] ++ inner ++ [ascii ')'] =
      outer ++ ascii '(' :: (inner ++ [ascii ')']) := by simp
  have htail : ascii '(' ∉ inner ++ [ascii ')'] := by
    rw [List.mem_append, List.mem_singleton]
    rintro (h | h)
    · exact hparen h
    · exact absurd h (by decide)
  rw [harg, cutIndexed?, cutLastParen?_append htail]
  simp [houter, hinner]

/-- An operand with a base register in parentheses is cut into its parts. -/
theorem cutIndexed?_base {base : UInt8} (hbase : Register.Named Register.scalar? Register.scalarName base)
    {outer : Text} (houter : Separable outer) :
    cutIndexed? (outer ++ [ascii '('] ++ Register.scalarName base ++ [ascii ')']) =
      some (outer, Register.scalarName base) := by
  refine cutIndexed?_append houter.framed.trim_eq hbase.separable.framed.trim_eq fun hmem => ?_
  exact absurd (hbase.isWordByte_of_mem hmem) (by decide)

theorem literal_decimal (v : Int64) : literal (Numeral.decimal v.toInt) = .ok (some v) := by
  have hleast := v.le_toInt
  have hmost := v.toInt_lt
  rw [literal, Numeral.number?_decimal (by omega) (by omega)]
  simp only [Int64.ofInt_toInt]

theorem literal_marked {v : Int64} (h : 0 ≤ v.toInt) : literal (Numeral.marked v.toInt) = .ok (some v) := by
  obtain ⟨n, hn⟩ := Int.eq_ofNat_of_zero_le h
  have hmost := v.toInt_lt
  have hvalue : Int64.ofNat n = v := by
    rw [← Int64.ofInt_toInt v, hn]
    rfl
  rw [hn, literal]
  simp only [Numeral.number?_marked (by omega : n < 2 ^ 64), hvalue]

theorem numberOf_decimal (v : Int64) : numberOf literal (Numeral.decimal v.toInt) = .ok v := by
  rw [numberOf, literal_decimal]

/-- An operand of an instruction has a text to be read from: a register has a name, an address is not
    negative, and no label stands for a number. -/
def Shows (x : Instruction) : OperandKind → Prop
  | .rd | .vd => x.rd.toNat < 32
  | .rs | .vs | .mem => x.rs.toNat < 32
  | .rt | .vt => x.rt.toNat < 32
  | .kd => x.rd.toNat < 6
  | .kt => x.rt.toNat < 6
  | .imm => True
  | .target => x.label = [] ∧ (x.mnemonic.format ≠ .i → 0 ≤ x.imm.toInt)
  | .index => x.rs.toNat < 32 ∧ x.rt.toNat < 32
  | .unknown _ => False

namespace Shows

variable {x : Instruction} {kind : OperandKind}

/-- A target is read as the number it shows. -/
theorem target (h : x.Shows .target) :
    Separable (x.operandText .target) ∧ literal (x.operandText .target) = .ok (some x.imm) := by
  have hlabel : (!x.label.isEmpty) = false := by simp [h.1]
  simp only [operandText, hlabel, Bool.false_eq_true, if_false]
  by_cases hf : x.mnemonic.format = .i
  · rw [if_pos hf]
    exact ⟨Numeral.separable_decimal _, literal_decimal _⟩
  · rw [if_neg hf]
    have himm := h.2 hf
    refine ⟨?_, literal_marked himm⟩
    obtain ⟨n, hn⟩ := Int.eq_ofNat_of_zero_le himm
    rw [hn]
    exact Numeral.separable_marked n

theorem separable (h : x.Shows kind) : Separable (x.operandText kind) := by
  cases kind with
  | rd => exact (Register.named_scalar h).separable
  | rs => exact (Register.named_scalar h).separable
  | rt => exact (Register.named_scalar h).separable
  | vd => exact (Register.named_vector h).separable
  | vs => exact (Register.named_vector h).separable
  | vt => exact (Register.named_vector h).separable
  | kd => exact (Register.named_kernel h).separable
  | kt => exact (Register.named_kernel h).separable
  | imm => exact Numeral.separable_decimal _
  | target => exact h.target.1
  | mem => exact (Numeral.separable_decimal _).indexed (Register.named_scalar h).separable
  | index => exact (Register.named_scalar h.2).separable.indexed (Register.named_scalar h.1).separable
  | unknown code => exact h.elim

/-- Each operand is read from its own text, whatever was read before it. -/
theorem readOperand_operandText (h : x.Shows kind) (y : Instruction) :
    readOperand literal kind (x.operandText kind) y = .ok (x.withOperand kind y) := by
  have hne : (x.operandText kind).isEmpty = false := by
    simpa using h.separable.nonempty
  unfold readOperand
  rw [if_neg (by simp [hne])]
  cases kind with
  | rd => exact (Register.named_scalar h).map_registerOf _
  | rs => exact (Register.named_scalar h).map_registerOf _
  | rt => exact (Register.named_scalar h).map_registerOf _
  | vd => exact (Register.named_vector h).map_registerOf _
  | vs => exact (Register.named_vector h).map_registerOf _
  | vt => exact (Register.named_vector h).map_registerOf _
  | kd => exact (Register.named_kernel h).map_registerOf _
  | kt => exact (Register.named_kernel h).map_registerOf _
  | imm =>
      simp only [operandText, numberOf_decimal]
      rfl
  | target =>
      simp only [h.target.2]
      rfl
  | mem =>
      -- the offset is never left out, not even if it is zero
      have hbase := Register.named_scalar h
      have hoffset := Numeral.separable_decimal x.imm.toInt
      have hne : (Numeral.decimal x.imm.toInt).isEmpty = false := by simpa using hoffset.nonempty
      simp only [operandText, cutIndexed?_base hbase hoffset, hbase.registerOf_eq, hne,
        Bool.false_eq_true, if_false, numberOf_decimal]
      rfl
  | index =>
      have hbase := Register.named_scalar h.1
      have hindex := Register.named_scalar h.2
      simp only [operandText, cutIndexed?_base hbase hindex.separable, hbase.registerOf_eq]
      exact hindex.map_registerOf _
  | unknown code => exact h.elim

end Shows

/-- All operands of an instruction have a text to be read from. -/
structure Showable (x : Instruction) : Prop where
  rd : x.rd.toNat < 32
  rs : x.rs.toNat < 32
  rt : x.rt.toNat < 32
  kernelD : .kd ∈ x.mnemonic.operands → x.rd.toNat < 6
  kernelT : .kt ∈ x.mnemonic.operands → x.rt.toNat < 6
  label : x.label = []
  address : x.mnemonic.format ≠ .i → 0 ≤ x.imm.toInt
  known : ∀ code, .unknown code ∉ x.mnemonic.operands

namespace Showable

variable {x : Instruction} {kind : OperandKind}

theorem shows (h : x.Showable) (hkind : kind ∈ x.mnemonic.operands) : x.Shows kind := by
  cases kind with
  | rd | vd => exact h.rd
  | rs | vs | mem => exact h.rs
  | rt | vt => exact h.rt
  | kd => exact h.kernelD hkind
  | kt => exact h.kernelT hkind
  | imm => trivial
  | target => exact ⟨h.label, h.address⟩
  | index => exact ⟨h.rs, h.rt⟩
  | unknown code => exact absurd hkind (h.known code)

/-- The operands of an instruction are read one after the other. -/
theorem readOperands_operandText (h : x.Showable) {kinds : List OperandKind}
    (hkinds : ∀ kind ∈ kinds, kind ∈ x.mnemonic.operands) (index : Nat) (y : Instruction) :
    readOperands literal index kinds (kinds.map x.operandText) y =
      .ok (kinds.foldl (fun y kind => x.withOperand kind y) y) := by
  induction kinds generalizing index y with
  | nil => rfl
  | cons kind kinds ih =>
      obtain ⟨hkind, hkinds⟩ := List.forall_mem_cons.1 hkinds
      rw [List.map_cons, readOperands, (h.shows hkind).readOperand_operandText, List.foldl_cons]
      exact ih hkinds (index + 1) _

end Showable

/-! ### Lines -/

/-- A line is cut into the mnemonic and its operands again. -/
theorem split_render {x : Instruction}
    (htexts : ∀ kind ∈ x.mnemonic.operands, Separable (x.operandText kind))
    (hname : ∀ b ∈ x.mnemonic.name, Text.isVisible b = true) (hne : x.mnemonic.name ≠ []) :
    ∃ rest, x.render.trim.splitWord = (x.mnemonic.name, rest) ∧
      rest.splitOperands = x.mnemonic.operands.map x.operandText := by
  have hframed : Text.Framed x.mnemonic.name := .of_visible hne hname
  replace htexts : ∀ t ∈ x.mnemonic.operands.map x.operandText, Separable t :=
    List.forall_mem_map.2 htexts
  cases hkinds : x.mnemonic.operands with
  | nil =>
      have hsplit : Text.splitWord (x.mnemonic.name ++ []) = (x.mnemonic.name, []) :=
        Text.splitWord_append hname (by simp) (by simp)
      rw [List.append_nil] at hsplit
      refine ⟨[], ?_, rfl⟩
      rw [render, hkinds, List.isEmpty_nil, if_pos rfl, hframed.trim_eq, hsplit]
  | cons kind kinds =>
      rw [hkinds] at htexts
      obtain ⟨hfirst, hothers⟩ := List.forall_mem_cons.1 htexts
      have hjoin := Text.framed_join hfirst hothers
      have hline := hframed.append [ascii ' '] (List.forall_mem_singleton.2 (by decide)) hjoin
      refine ⟨[ascii ' '] ++ Text.join (Text.ofString ", ") ((kind :: kinds).map x.operandText), ?_, ?_⟩
      · rw [render, hkinds, List.isEmpty_cons, if_neg Bool.false_ne_true, List.map_cons, hline.trim_eq,
          List.append_assoc]
        exact Text.splitWord_append hname (List.forall_mem_cons.2 ⟨by decide, hjoin.ascii⟩) (by simp)
      · exact Text.splitOperands_join (by simp) htexts

/-- The line of an instruction is read as the instruction, as far as its operands show it. -/
theorem parse_render {tb : Table} {x : Instruction} (hlookup : tb.lookup? x.mnemonic.name = some x.mnemonic)
    (hname : ∀ b ∈ x.mnemonic.name, Text.isVisible b = true) (hne : x.mnemonic.name ≠ [])
    (h : x.Showable) (hcheck : check x.written = .ok ()) : parse tb literal x.render = .ok x.written := by
  obtain ⟨rest, hsplit, hoperands⟩ := split_render (fun _ hkind => (h.shows hkind).separable) hname hne
  have hread : readOperands literal 0 x.mnemonic.operands (x.mnemonic.operands.map x.operandText)
      { mnemonic := x.mnemonic } = .ok x.written := h.readOperands_operandText (fun _ => id) 0 _
  rw [parse]
  simp only [hsplit, hlookup, hoperands, List.length_map, ne_eq, not_true_eq_false, if_false, hread, hcheck]
  rfl

/-! ### Words -/

open Mnemonic

section Unpacked

variable (w : Word) (m : Mnemonic)

theorem registers_unpack :
    (w.unpack m).rd.toNat < 32 ∧ (w.unpack m).rs.toNat < 32 ∧ (w.unpack m).rt.toNat < 32 := by
  have hd : w.fieldD.toNat < 32 := by
    rw [Word.toNat_fieldD]
    omega
  have hs : w.fieldS.toNat < 32 := by
    rw [Word.toNat_fieldS]
    omega
  have ht : w.fieldT.toNat < 32 := by
    rw [Word.toNat_fieldT]
    omega
  have hzero : (0 : UInt8).toNat < 32 := by decide
  rw [Word.unpack]
  split
  · exact ⟨hd, hs, ht⟩
  · exact ⟨hzero, hs, hd⟩
  · split <;> exact ⟨hzero, hzero, hzero⟩
  · exact ⟨hd, hzero, hzero⟩
  all_goals exact ⟨hzero, hzero, hzero⟩

/-- Only short immediates can be negative. -/
theorem address_unpack (hf : m.format ≠ .i) : 0 ≤ (w.unpack m).imm.toInt := by
  have hnat {value : UInt64} (h : value.toNat < 2 ^ 63) : 0 ≤ value.toInt64.toInt := by
    rw [toInt_toInt64 h]
    omega
  have hzero : 0 ≤ (0 : Int64).toInt := by decide
  rw [Word.unpack]
  split
  · exact hzero
  · contradiction
  · split
    · exact hzero
    · have hlt : w.addrJ.toNat < 2 ^ 25 := by
        rw [Word.toNat_addrJ]
        omega
      exact hnat (by rw [toNat_target hlt]; omega)
  · have hlt := w.immEI.toNat_lt
    exact hnat (by rw [UInt16.toNat_toUInt64]; omega)
  all_goals exact hzero

end Unpacked

/-- An instruction of a word has a text to be read from, unless it names a kernel register there is none
    of. -/
theorem showable_unpack {w : Word} {m : Mnemonic} (hfits : m.Fits)
    (hkd : .kd ∈ m.operands → (w.unpack m).rd < 6) (hkt : .kt ∈ m.operands → (w.unpack m).rt < 6) :
    (w.unpack m).Showable where
  rd := (registers_unpack w m).1
  rs := (registers_unpack w m).2.1
  rt := (registers_unpack w m).2.2
  kernelD hmem := UInt8.lt_iff_toNat_lt.1 (hkd (by simpa using hmem))
  kernelT hmem := UInt8.lt_iff_toNat_lt.1 (hkt (by simpa using hmem))
  label := Word.unpack_label w m
  address := by simpa using address_unpack w m
  known code hmem := by
    rw [Word.unpack_mnemonic] at hmem
    have hallowed := hfits.2.1 _ hmem
    cases hf : m.format <;> simp [hf, OperandKind.allowed] at hallowed

/-- The mnemonics of the instruction set are plain words. -/
theorem standard_visible : ∀ m ∈ standard, m.name.all Text.isVisible = true ∧ m.name ≠ [] := by
  decide +kernel

/-- Disassembly reassembles. If a word is decoded to an instruction whose immediate fits and whose kernel
    register, if it names one, exists, the text of the instruction is read as an instruction that is packed
    to the word, with all bits cleared that belong to no operand and to no code. -/
theorem parse_render_decode {w : Word} {x : Instruction} (hdecode : decode Table.standard w = .ok x)
    (hcheck : check x = .ok ()) (hkd : .kd ∈ x.mnemonic.operands → x.rd < 6)
    (hkt : .kt ∈ x.mnemonic.operands → x.rt < 6) :
    ∃ y, parse Table.standard literal x.render = .ok y ∧ y.encode = .ok (w &&& x.mnemonic.bits) := by
  obtain ⟨m, hm, hreal, hcarries, rfl⟩ := decode_eq_ok_iff.1 hdecode
  rw [Word.unpack_mnemonic] at hkd hkt ⊢
  have hfits := (standard_fits m hm hreal).1
  have hwritten := check_written hfits hcheck
  obtain ⟨hname, hne⟩ := standard_visible m hm
  have hlookup : Table.standard.lookup? m.name = some m :=
    standard_valid.lookup?_eq_some_iff.2 ⟨hm, rfl⟩
  refine ⟨(w.unpack m).written, ?_, encode_written hm hreal hcarries hwritten⟩
  rw [List.all_eq_true] at hname
  exact parse_render (by simpa using hlookup) (by simpa using hname) (by simpa using hne)
    (showable_unpack hfits hkd hkt) hwritten

/-- A move to the last kernel register, with bits in the field of a second source, which it does not
    have. -/
theorem parse_render_decode_timeCompare :
    let w := Word.ofR 0 0x061 5 23 31
    ∃ x, decode Table.standard w = .ok x ∧ check x = .ok () ∧ .kd ∈ x.mnemonic.operands ∧ x.rd < 6 ∧
      x.render = Text.ofString "mtk %timecmp, %s3" ∧
      ∃ y, parse Table.standard literal x.render = .ok y ∧ y.encode = .ok (Word.ofR 0 0x061 5 23 0) := by
  intro w
  let mtk := scalar "mtk" 0x061 [.kd, .rs]
  have hdecode : decode Table.standard w = .ok (w.unpack mtk) :=
    decode_of_carries (by decide +kernel) rfl ⟨by decide, fun _ => by decide, by simp [mtk, scalar]⟩
  have hcheck : check (w.unpack mtk) = .ok () := by decide
  have hbits : w &&& (w.unpack mtk).mnemonic.bits = Word.ofR 0 0x061 5 23 0 := by decide
  have hparse := parse_render_decode hdecode hcheck (by decide) (by decide)
  rw [hbits] at hparse
  exact ⟨w.unpack mtk, hdecode, hcheck, by decide, by decide, by decide, hparse⟩

end Instruction

end VectorRisc
