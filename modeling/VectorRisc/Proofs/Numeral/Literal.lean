/-
Module: VectorRisc.Proofs.Numeral.Literal
Layer: Proofs
Purpose: Values and words. What an expression comes to is put into the source as text and read from there
  again, so an integer that an expression has as its value comes out of the text as its 64-bit pattern, or
  there is no text for it. A word of the source is a number, a label or neither, and never two of them.
Imports: Mathlib.Tactic, VectorRisc.Command.Host, VectorRisc.Proofs.Numeral.Integer
Trusted boundary: none
Main exports: Assembler.Value.text?_int, Assembler.evalExpression_int, Numeral.number?_of_isLabel,
  Instruction.literal_classifies, Instruction.integers_through_text
Open obligations: none
-/
import Mathlib.Tactic
import VectorRisc.Command.Host
import VectorRisc.Proofs.Numeral.Integer

namespace VectorRisc

/-! ### Values as text -/

namespace Assembler

/-- An integer has a text if it is a signed or an unsigned one of 64 bits. -/
theorem Value.text?_int (v : Int) :
    (Value.int v).text? = if -2 ^ 63 ≤ v ∧ v < 2 ^ 64 then some (Numeral.decimal v) else none := by
  have hbounds : (decide (-(Numeral.signedLimit : Int) ≤ v) && decide (v ≤ (Numeral.unsignedMax : Int))) =
      decide (-2 ^ 63 ≤ v ∧ v < 2 ^ 64) := by
    rw [← Bool.decide_and, decide_eq_decide]
    simp only [Numeral.signedLimit, Numeral.unsignedMax]
    omega
  rw [Value.text?, hbounds]
  simp only [decide_eq_true_eq]

/-- What an expression with an integer as its value gives way to, on any host. -/
theorem evalExpression_int {host : Host} {equates : Equates} {text : Text} {v : Int}
    (h : host.result equates.number? text = .ok (some (.int v))) :
    evalExpression host equates text =
      if -2 ^ 63 ≤ v ∧ v < 2 ^ 64 then .ok (Numeral.decimal v) else .error (.expression text) := by
  simp only [evalExpression, h, Option.bind_some, Value.text?_int]
  by_cases hv : -2 ^ 63 ≤ v ∧ v < 2 ^ 64
  · simp only [if_pos hv]
  · simp only [if_neg hv]

end Assembler

/-! ### Words -/

theorem Text.isDigit_of_isLabelStart {b : UInt8} (h : isLabelStart b = true) : isDigit b = false := by
  simp [isLabelStart, isNameStart, isLetter, isDigit, ascii, UInt8.le_iff_toNat_le,
    ← UInt8.toNat_inj] at h ⊢
  omega

/-- A label is no number: it starts with a letter, an underscore or a dot. -/
theorem Numeral.number?_of_isLabel {word : Text} (h : word.isLabel = true) : number? word = none := by
  cases word with
  | nil => cases h
  | cons b rest =>
      rw [Text.isLabel, Bool.and_eq_true] at h
      obtain ⟨hstart, -⟩ := h
      have hplain : b ∉ ['+', '-', '\''].map ascii := by
        intro hb
        simp only [List.map_cons, List.map_nil, List.mem_cons, List.not_mem_nil, or_false] at hb
        rcases hb with rfl | rfl | rfl <;> exact absurd hstart (by decide)
      obtain ⟨e, hread⟩ := exists_readUnsigned_eq_error (Text.isDigit_of_isLabelStart hstart) rest
      exact number?_eq_none_of_readUnsigned rfl hplain hread

namespace Instruction

/-- The resolver of literals tells numbers, labels and all other words apart. -/
theorem literal_classifies (word : Text) :
    (∀ v, literal word = .ok (some v) ↔ Numeral.number? word = some v) ∧
    (literal word = .ok none ↔ word.isLabel = true) ∧
    ∀ e, literal word = .error e ↔
      e = .notNumber word ∧ Numeral.number? word = none ∧ word.isLabel = false := by
  rw [literal]
  cases hnumber : Numeral.number? word with
  | some v =>
      have hlabel : word.isLabel = false := by
        by_contra hlabel
        rw [Bool.not_eq_false] at hlabel
        cases hnumber.symm.trans (Numeral.number?_of_isLabel hlabel)
      simp [hlabel]
  | none =>
      cases hlabel : word.isLabel with
      | true => simp
      | false => simp [eq_comm]

/-- Integers survive the way through text. An expression whose value on the host is a signed or an unsigned
    integer of 64 bits gives way to its decimal text, and the text is read as the pattern of the integer, as
    is its hexadecimal form if it is not negative. An integer with no pattern of 64 bits has no text, and its
    decimal digits are no number. No label is a number; so the resolver of literals answers with a number
    for numbers, asks for a label at labels, and fails at all other words. -/
theorem integers_through_text :
    (∀ v : Int, -2 ^ 63 ≤ v → v < 2 ^ 64 →
      (∀ (host : Assembler.Host) (equates : Assembler.Equates) (text : Text),
        host.result equates.number? text = .ok (some (.int v)) →
          Assembler.evalExpression host equates text = .ok (Numeral.decimal v)) ∧
      Numeral.number? (Numeral.decimal v) = some (Int64.ofInt v) ∧
      (0 ≤ v → Numeral.number? (Numeral.marked v) = some (Int64.ofInt v))) ∧
    (∀ v : Int, v < -2 ^ 63 ∨ 2 ^ 64 ≤ v →
      (∀ (host : Assembler.Host) (equates : Assembler.Equates) (text : Text),
        host.result equates.number? text = .ok (some (.int v)) →
          Assembler.evalExpression host equates text = .error (.expression text)) ∧
      Numeral.number? (Numeral.decimal v) = none) ∧
    (∀ word : Text, word.isLabel = true → Numeral.number? word = none) ∧
    ∀ word : Text,
      (∀ v, literal word = .ok (some v) ↔ Numeral.number? word = some v) ∧
      (literal word = .ok none ↔ word.isLabel = true) ∧
      ∀ e, literal word = .error e ↔
        e = .notNumber word ∧ Numeral.number? word = none ∧ word.isLabel = false := by
  refine ⟨?_, ?_, ?_, literal_classifies⟩
  · intro v hleast hmost
    refine ⟨?_, Numeral.number?_decimal hleast hmost, ?_⟩
    · intro host equates text hvalue
      rw [Assembler.evalExpression_int hvalue, if_pos ⟨hleast, hmost⟩]
    · intro hsign
      obtain ⟨n, rfl⟩ := Int.eq_ofNat_of_zero_le hsign
      exact Numeral.number?_marked (by omega)
  · intro v hfar
    constructor
    · intro host equates text hvalue
      rw [Assembler.evalExpression_int hvalue, if_neg (by omega)]
    · exact Numeral.number?_decimal_eq_none hfar
  · intro word hlabel
    exact Numeral.number?_of_isLabel hlabel

/-- The greatest unsigned number, the next one, and a label that is written with digits. -/
theorem integers_through_text_greatest :
    let v : Int := 0xffffffffffffffff
    let text := Text.ofString "(1 << 64) - 1"
    (-2 ^ 63 ≤ v ∧ v < 2 ^ 64) ∧
    Command.host.result (Assembler.Equates.number? []) text = .ok (some (.int v)) ∧
    Assembler.evalExpression Command.host [] text = .ok (Numeral.decimal v) ∧
    Numeral.number? (Numeral.decimal v) = some (-1) ∧ Numeral.number? (Numeral.marked v) = some (-1) ∧
    Numeral.number? (Numeral.decimal (v + 1)) = none ∧ literal (Text.ofString "_1") = .ok none := by
  intro v text
  obtain ⟨hinside, houtside, -, hwords⟩ := integers_through_text
  have hbounds : -2 ^ 63 ≤ v ∧ v < 2 ^ 64 := by decide
  have hvalue : Command.host.result (Assembler.Equates.number? []) text = .ok (some (.int v)) := rfl
  obtain ⟨htext, hdecimal, hmarked⟩ := hinside v hbounds.1 hbounds.2
  obtain ⟨-, hnext⟩ := houtside (v + 1) (.inr (by decide))
  obtain ⟨-, hlabel, -⟩ := hwords (Text.ofString "_1")
  exact ⟨hbounds, hvalue, htext Command.host [] text hvalue, hdecimal, hmarked (by decide), hnext,
    hlabel.2 (by decide)⟩

end Instruction

end VectorRisc
