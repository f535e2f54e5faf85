/-
Module: VectorRisc.Proofs.Assembler.Expansion
Layer: Proofs
Purpose: Replacing expressions comes to an end. Every round takes the parentheses of one expression out of
  the line and an evaluator that answers with numbers brings no new ones, so there are at most as many
  rounds as the line has open parentheses. That holds where a dollar sign before the expression and a
  parenthesis behind it meet in the new line too, although the number of expressions need not drop there.
Imports: Mathlib.Tactic, VectorRisc.Command.Host, VectorRisc.Proofs.Assembler.Shadowing,
  VectorRisc.Proofs.Numeral.Literal
Trusted boundary: none
Main exports: Assembler.round, Assembler.Ends, Assembler.Tame, Assembler.Ends.replaceExpressionsFrom_eq,
  Assembler.tame_evalExpression, Assembler.expansion_ends
Open obligations: none
-/
import Mathlib.Tactic
import VectorRisc.Command.Host
import VectorRisc.Proofs.Assembler.Shadowing
import VectorRisc.Proofs.Numeral.Literal

namespace VectorRisc

/-! ### The bytes of numbers -/

namespace Numeral

/-- The bytes that numbers are written with, words for what is no finite number included. -/
def written : Text := Text.ofString "+-.0123456789abcdefnIN"

theorem natural_subset (n : Nat) : natural 10 n ⊆ written := by
  have hdigits : ∀ d < 16, ascii (Nat.digitChar d) ∈ written := by decide
  intro b hb
  obtain ⟨d, hd, rfl⟩ := exists_digit_of_mem_natural (by norm_num) (by norm_num) n hb
  exact hdigits d hd

theorem decimal_subset (v : Int) : decimal v ⊆ written := by
  cases v with
  | ofNat n => exact natural_subset n
  | negSucc n => exact List.cons_subset.2 ⟨by decide, natural_subset (n + 1)⟩

end Numeral

namespace Ieee.Format

open Numeral

theorem zeros_subset (n : Nat) : List.replicate n (ascii '0') ⊆ written := by
  intro b hb
  rw [List.eq_of_mem_replicate hb]
  decide

theorem decimalText_subset (d : Decimal) : d.text ⊆ written := by
  have hdigits := natural_subset d.digits
  rw [Decimal.text]
  split
  · split
    · exact List.append_subset.2 ⟨List.append_subset.2 ⟨by decide, zeros_subset _⟩, hdigits⟩
    · split
      · exact List.append_subset.2 ⟨hdigits, zeros_subset _⟩
      · refine List.append_subset.2 ⟨List.append_subset.2 ⟨?_, by decide⟩, ?_⟩
        · exact fun b hb => hdigits (List.mem_of_mem_take hb)
        · exact fun b hb => hdigits (List.mem_of_mem_drop hb)
  · have hsign : [ascii 'e', if d.point - 1 < 0 then ascii '-' else ascii '+'] ⊆ written := by
      split <;> decide
    refine List.append_subset.2 ⟨List.append_subset.2 ⟨List.append_subset.2 ⟨?_, hsign⟩, zeros_subset _⟩,
      natural_subset _⟩
    -- the digits, with a point behind the first of several
    split
    · rename_i first second rest heq
      rw [heq, List.cons_subset] at hdigits
      exact List.cons_subset.2 ⟨hdigits.1, List.cons_subset.2 ⟨by decide, hdigits.2⟩⟩
    · exact hdigits

theorem write_subset (f : Format) (pattern : Nat) : f.write pattern ⊆ written := by
  have hsign : (if f.signBit ≤ pattern % (2 * f.signBit) then [ascii '-'] else []) ⊆ written := by
    split <;> decide
  simp only [write]
  by_cases hnan : f.infinity < pattern % f.signBit
  · rw [if_pos hnan]
    decide
  · rw [if_neg hnan]
    by_cases hinfinity : pattern % f.signBit = f.infinity
    · rw [if_pos hinfinity]
      split <;> decide
    · rw [if_neg hinfinity]
      by_cases hzero : pattern % f.signBit = 0
      · rw [if_pos hzero]
        exact List.append_subset.2 ⟨hsign, by decide⟩
      · rw [if_neg hzero]
        exact List.append_subset.2 ⟨hsign, decimalText_subset _⟩

end Ieee.Format

namespace Assembler

/-- What stands for a value in a source is written like a number. -/
theorem Value.text?_subset {v : Value} {t : Text} (h : v.text? = some t) : t ⊆ Numeral.written := by
  cases v with
  | int n =>
      rw [Value.text?] at h
      split at h
      · cases h
        exact Numeral.decimal_subset n
      · cases h
  | float pattern =>
      rw [Value.text?] at h
      split at h
      · cases h
      · cases h
        exact Ieee.Format.write_subset _ _
  | bool b =>
      cases h
      cases b <;> decide
  | other => cases h

/-! ### Evaluators -/

/-- The texts that an evaluator answers with have neither of the bytes that an expression starts with. -/
def Tame (eval : Text → Except Error Text) : Prop :=
  ∀ text value, eval text = .ok value → ascii '$' ∉ value ∧ ascii '(' ∉ value

/-- Expressions come to numbers, whatever the host runs their programs with. -/
theorem tame_evalExpression (host : Host) (equates : Equates) : Tame (evalExpression host equates) := by
  intro text value h
  rw [evalExpression] at h
  cases hresult : host.result equates.number? text with
  | error cause => simp [hresult] at h
  | ok result =>
      cases hvalue : result.bind Value.text? with
      | none => simp [hresult, hvalue] at h
      | some t =>
          obtain rfl : t = value := by simpa [hresult, hvalue] using h
          obtain ⟨v, -, htext⟩ := Option.bind_eq_some_iff.1 hvalue
          have hwritten := Value.text?_subset htext
          exact ⟨fun hmem => absurd (hwritten hmem) (by decide),
            fun hmem => absurd (hwritten hmem) (by decide)⟩

/-! ### Places of expressions -/

theorem unopened_iff (t : Text) : Unopened t ↔ ¬Text.ofString "$(" <:+: t := by
  have hmark : Text.ofString "$(" = [ascii '$', ascii '('] := by decide
  refine ⟨?_, Unopened.of_not_isInfix⟩
  rintro h ⟨before, after, hinfix⟩
  have hplace : t = before ++ ascii '$' :: ascii '(' :: after := by simp [← hinfix, hmark]
  exact List.isChain_iff_forall_rel_of_append_cons_cons.1 h hplace ⟨rfl, rfl⟩

theorem unopened_of_cutOpening? {held t : Text} (h : cutOpening? held t = none) : Unopened t := by
  induction t generalizing held with
  | nil => exact .nil
  | cons d rest ih =>
      cases rest with
      | nil => exact .singleton d
      | cons p rest =>
          rw [cutOpening?] at h
          split at h
          · cases h
          · rename_i hfirst
            exact .cons_cons (by simpa using hfirst) (ih h)

theorem eq_of_cutOpening? {held t before after : Text} (h : cutOpening? held t = some (before, after)) :
    held.reverse ++ t = before ++ ascii '$' :: ascii '(' :: after := by
  induction t generalizing held with
  | nil => cases h
  | cons d rest ih =>
      cases rest with
      | nil => cases h
      | cons p rest =>
          rw [cutOpening?] at h
          split at h
          · rename_i hfirst
            obtain ⟨rfl, rfl⟩ : d = ascii '$' ∧ p = ascii '(' := by simpa using hfirst
            cases h
            rfl
          · simpa using ih h

theorem eq_of_cutClosing? {depth : Nat} {held t inside rest : Text}
    (h : cutClosing? depth held t = some (inside, rest)) : held.reverse ++ t = inside ++ ascii ')' :: rest := by
  induction t generalizing depth held with
  | nil => cases h
  | cons b t ih =>
      rw [cutClosing?] at h
      split at h
      · simpa using ih h
      · split at h
        · rename_i hclose
          split at h
          · cases h
            rw [hclose]
          · simpa using ih h
        · simpa using ih h

/-! ### Rounds -/

section Rounds

variable {eval : Text → Except Error Text} {line next : Text} {n fuel : Nat} {result : Except Error Text}

/-- One round: the line with its first expression replaced, or none if the line has no expression. -/
def round (eval : Text → Except Error Text) (line : Text) : Except Error (Option Text) :=
  match cutOpening? [] line with
  | none => .ok none
  | some (before, after) =>
    match cutClosing? 1 [] after with
    | none => .error (.expression after)
    | some (inside, rest) =>
      match eval inside with
      | .error e => .error e
      | .ok value => .ok (some (before ++ value ++ rest))

theorem replaceExpressionsFrom_succ (eval : Text → Except Error Text) (fuel : Nat) (line : Text) :
    replaceExpressionsFrom eval (fuel + 1) line =
      match round eval line with
      | .error e => .error e
      | .ok none => .ok line
      | .ok (some next) => replaceExpressionsFrom eval fuel next := by
  rw [replaceExpressionsFrom, round]
  cases cutOpening? [] line with
  | none => rfl
  | some cut =>
      obtain ⟨before, after⟩ := cut
      dsimp only
      cases cutClosing? 1 [] after with
      | none => rfl
      | some cut =>
          obtain ⟨inside, rest⟩ := cut
          dsimp only
          cases eval inside <;> rfl

theorem round_eq_none : round eval line = .ok none ↔ Unopened line := by
  constructor
  · intro h
    rw [round] at h
    split at h
    · rename_i hcut
      exact unopened_of_cutOpening? hcut
    · split at h
      · cases h
      · split at h <;> cases h
  · intro h
    rw [round, h.cutOpening?_eq]

/-- A line that a round has something to do in has an open parenthesis. -/
theorem count_pos (h : ¬Unopened line) : 0 < line.count (ascii '(') :=
  List.count_pos_iff.2 (by_contra fun hmem => h (.of_notMem hmem))

/-- A round takes an open parenthesis out of the line. The dollar sign goes too, but a dollar sign and a
    parenthesis around an empty value can become neighbours, so expressions are not what is counted. -/
theorem Tame.count_lt (heval : Tame eval) (h : round eval line = .ok (some next)) :
    next.count (ascii '(') < line.count (ascii '(') := by
  rw [round] at h
  split at h
  · cases h
  · rename_i before after hopening
    split at h
    · cases h
    · rename_i inside rest hclosing
      split at h
      · cases h
      · rename_i value hvalue
        obtain rfl : before ++ value ++ rest = next := by simpa using h
        have hline : line = before ++ ascii '$' :: ascii '(' :: (inside ++ ascii ')' :: rest) := by
          rw [← eq_of_cutClosing? hclosing]
          exact eq_of_cutOpening? hopening
        have hvalue : value.count (ascii '(') = 0 := List.count_eq_zero.2 (heval _ _ hvalue).2
        have hdollar : ascii '$' ≠ ascii '(' := by decide
        rw [hline]
        simp only [List.count_append, List.count_cons_self, List.count_cons_of_ne hdollar, hvalue]
        have hrest : rest.count (ascii '(') ≤ (ascii ')' :: rest).count (ascii '(') := List.count_le_count_cons
        omega

/-- The loop of rounds over a line ends after `n` of them: with a line that has no expression, or with the
    error of the last round. -/
inductive Ends (eval : Text → Except Error Text) : Text → Nat → Except Error Text → Prop where
  | done {line : Text} (h : round eval line = .ok none) : Ends eval line 0 (.ok line)
  | failed {line : Text} {e : Error} (h : round eval line = .error e) : Ends eval line 1 (.error e)
  | next {line next : Text} {n : Nat} {result : Except Error Text} (h : round eval line = .ok (some next))
      (hrest : Ends eval next n result) : Ends eval line (n + 1) result

namespace Ends

/-- With fuel for the rounds there are, replacing goes through them all. -/
theorem replaceExpressionsFrom_eq (h : Ends eval line n result) (hfuel : n ≤ fuel) :
    replaceExpressionsFrom eval fuel line = result := by
  induction h generalizing fuel with
  | done h =>
      cases fuel with
      | zero => rfl
      | succ fuel => rw [replaceExpressionsFrom_succ, h]
  | failed h =>
      obtain ⟨fuel, rfl⟩ := Nat.exists_eq_add_of_le' hfuel
      rw [replaceExpressionsFrom_succ, h]
  | next h _ ih =>
      obtain ⟨fuel, rfl⟩ := Nat.exists_eq_add_of_le' (Nat.le_of_add_left_le hfuel)
      rw [replaceExpressionsFrom_succ, h]
      exact ih (by omega)

/-- The line that the loop ends with has no expression. -/
theorem unopened {out : Text} (h : Ends eval line n (.ok out)) : Unopened out := by
  generalize hresult : Except.ok out = result at h
  induction h with
  | done h =>
      cases hresult
      exact round_eq_none.1 h
  | failed => cases hresult
  | next _ _ ih => exact ih hresult

end Ends

/-- The loop ends with every evaluator that brings no parts of expressions, after no more rounds than the
    line has open parentheses. -/
theorem Tame.exists_ends (heval : Tame eval) (line : Text) :
    ∃ n result, n ≤ line.count (ascii '(') ∧ Ends eval line n result := by
  induction hcount : line.count (ascii '(') using Nat.strongRecOn generalizing line with
  | ind count ih =>
      cases hround : round eval line with
      | error e =>
          have hopened : ¬Unopened line := fun h => by
            rw [round_eq_none.2 h] at hround
            cases hround
          exact ⟨1, .error e, hcount ▸ count_pos hopened, .failed hround⟩
      | ok next? =>
          cases next? with
          | none => exact ⟨0, .ok line, Nat.zero_le _, .done hround⟩
          | some next =>
              have hlt := heval.count_lt hround
              obtain ⟨n, result, hn, hends⟩ := ih _ (hcount ▸ hlt) next rfl
              exact ⟨n + 1, result, by omega, .next hround hends⟩

end Rounds

/-- Expressions are all replaced, or one of them fails. The values that the assembler puts in are tame. With
    every tame evaluator the loop of rounds over a line ends, after no more rounds than the line has open
    parentheses, and replacing, which has fuel for as many rounds as the line has bytes, has the result of
    the loop; the result has no expression left and is the line itself if that had none. -/
theorem expansion_ends :
    (∀ (host : Host) (equates : Equates), Tame (evalExpression host equates)) ∧
    ∀ eval : Text → Except Error Text, Tame eval → ∀ line : Text, ∃ n result,
      n ≤ line.count (ascii '(') ∧ Ends eval line n result ∧ replaceExpressions eval line = result ∧
      (∀ out, result = .ok out → ¬Text.ofString "$(" <:+: out) ∧
      (¬Text.ofString "$(" <:+: line → result = .ok line) := by
  refine ⟨tame_evalExpression, fun eval heval line => ?_⟩
  obtain ⟨n, result, hn, hends⟩ := heval.exists_ends line
  have hreplaced : replaceExpressions eval line = result :=
    hends.replaceExpressionsFrom_eq (hn.trans List.count_le_length)
  refine ⟨n, result, hn, hends, hreplaced, ?_, fun hplain => ?_⟩
  · rintro out rfl
    exact (unopened_iff out).1 hends.unopened
  · rw [← hreplaced]
    exact Unopened.replaceExpressions_eq ((unopened_iff line).2 hplain) eval

/-- Expressions with parentheses of their own and with a dollar sign and a parenthesis around them. -/
def crowdedLine : Text := Text.ofString "li %t0, $((N + 1) * 2) $$(N)("

/-- A line with both bytes, but not next to each other. -/
def spacedLine : Text := Text.ofString "li %t0, $ (N)"

theorem expansion_ends_crowdedLine :
    let eval := evalExpression Command.host [(Text.ofString "N", Text.ofString "20")]
    let out := Text.ofString "li %t0, 42 $20("
    (∃ n ≤ 4, Ends eval crowdedLine n (.ok out)) ∧ replaceExpressions eval crowdedLine = .ok out ∧
    ¬Text.ofString "$(" <:+: out ∧ replaceExpressions eval spacedLine = .ok spacedLine := by
  intro eval out
  obtain ⟨htame, hloop⟩ := expansion_ends
  obtain ⟨n, result, hn, hends, hresult, hgone, -⟩ := hloop eval (htame _ _) crowdedLine
  obtain ⟨_, _, -, -, hspaced, -, hplain⟩ := hloop eval (htame _ _) spacedLine
  have hout : replaceExpressions eval crowdedLine = .ok out := rfl
  obtain rfl : result = .ok out := hresult.symm.trans hout
  exact ⟨⟨n, hn, hends⟩, hout, hgone out rfl, hspaced.trans (hplain (by decide +kernel))⟩

end Assembler

end VectorRisc
