/-
Module: VectorRisc.Proofs.Text.Trimming
Layer: Proofs
Purpose: What trimming and cutting leave. A trimmed text has no more blanks to trim; and an operand that
  is cut from a list is a list of one operand.
Imports: Mathlib.Data.List.DropRight, Mathlib.Tactic, VectorRisc.Proofs.Text.Operands
Trusted boundary: none
Main exports: Text.trim_trim, Text.IsNeutral, Text.Uncut, Text.splitOperands_of_mem
Open obligations: none
-/
import Mathlib.Data.List.DropRight
import Mathlib.Tactic
import VectorRisc.Proofs.Text.Operands

namespace VectorRisc

namespace Text

/-! ### Trimmed texts -/

theorem trim_eq_rdropWhile (t : Text) :
    t.trim = ofGlyphs ((t.glyphs.dropWhile Glyph.isBlank).rdropWhile Glyph.isBlank) := rfl

/-- The text behind the blanks at the front, and what is left of it at the end. -/
theorem trim_isPrefix (t : Text) : t.trim <+: ofGlyphs (t.glyphs.dropWhile Glyph.isBlank) := by
  obtain ⟨more, hmore⟩ := List.rdropWhile_prefix Glyph.isBlank (t.glyphs.dropWhile Glyph.isBlank)
  rw [trim_eq_rdropWhile]
  nth_rewrite 2 [← hmore]
  rw [ofGlyphs, ofGlyphs, List.flatMap_append]
  exact List.prefix_append _ _

theorem glyphs_trim (t : Text) :
    t.trim.glyphs = (t.glyphs.dropWhile Glyph.isBlank).rdropWhile Glyph.isBlank := by
  have hfront := glyphs_ofGlyphs_of_suffix (List.dropWhile_suffix (l := t.glyphs) Glyph.isBlank)
  rw [trim_eq_rdropWhile]
  apply glyphs_ofGlyphs_of_prefix (t := ofGlyphs (t.glyphs.dropWhile Glyph.isBlank))
  rw [hfront]
  exact List.rdropWhile_prefix _ _

/-- A trimmed text has no blanks at its ends. -/
theorem trim_trim (t : Text) : t.trim.trim = t.trim := by
  have hfront : ((t.glyphs.dropWhile Glyph.isBlank).rdropWhile Glyph.isBlank).dropWhile Glyph.isBlank =
      (t.glyphs.dropWhile Glyph.isBlank).rdropWhile Glyph.isBlank := by
    obtain ⟨more, hmore⟩ := List.rdropWhile_prefix Glyph.isBlank (t.glyphs.dropWhile Glyph.isBlank)
    cases hkept : (t.glyphs.dropWhile Glyph.isBlank).rdropWhile Glyph.isBlank with
    | nil => rfl
    | cons g gs =>
        rw [hkept, List.cons_append] at hmore
        have hshown := List.head_dropWhile_not Glyph.isBlank (l := t.glyphs) (by simp [← hmore])
        simp only [← hmore, List.head_cons] at hshown
        rw [List.dropWhile_cons_of_neg (by simpa using hshown)]
  rw [trim_eq_rdropWhile t.trim, glyphs_trim, hfront, List.rdropWhile_idempotent, ← trim_eq_rdropWhile]

end Text

/-! ### Bytes of blanks -/

/-- The byte neither separates operands nor opens quotes nor moves the parenthesis depth. -/
def Text.IsNeutral (b : UInt8) : Prop := b ≠ ascii ',' ∧ Quote.isMark b = false ∧ depthStep b = 0

theorem Text.isNeutral_of_ne {b : UInt8}
    (h : ∀ c ∈ [ascii ',', ascii '"', ascii '\'', ascii '(', ascii ')'], b ≠ c) : IsNeutral b := by
  simp only [List.mem_cons, List.not_mem_nil, or_false, forall_eq_or_imp, forall_eq] at h
  obtain ⟨hcomma, hdouble, hsingle, hopen, hclose⟩ := h
  exact ⟨hcomma, by simp [Quote.isMark, hdouble, hsingle], by simp [depthStep, hopen, hclose]⟩

namespace Glyph

open Text (IsNeutral isNeutral_of_ne)

theorem isNeutral_of_le {b : UInt8} (h : 0x80 ≤ b) : IsNeutral b := by
  apply isNeutral_of_ne
  rintro c hc rfl
  simp only [List.mem_cons, List.not_mem_nil, or_false] at hc
  rcases hc with rfl | rfl | rfl | rfl | rfl <;> exact absurd h (by decide)

theorem isNeutral_of_blankCode {b : UInt8} (h : blankCode b.toNat = true) : IsNeutral b := by
  apply isNeutral_of_ne
  rintro c hc rfl
  simp only [List.mem_cons, List.not_mem_nil, or_false] at hc
  rcases hc with rfl | rfl | rfl | rfl | rfl <;> exact absurd h (by decide)

/-- The bytes of a blank separate nothing. -/
theorem isNeutral_of_first {b : UInt8} {rest : Text} (h : (first b rest).isBlank = true) :
    ∀ c ∈ (first b rest).bytes, IsNeutral c := by
  by_cases hb : b < 0x80
  · rw [first_of_ascii hb] at h ⊢
    simpa [Text.byteGlyph] using isNeutral_of_blankCode h
  · exact fun c hc => isNeutral_of_le ((first_wide (UInt8.not_lt.1 hb) rest).2 c hc)

end Glyph

namespace Text

theorem isNeutral_of_mem_glyphs {t : Text} {g : Glyph} (hg : g ∈ t.glyphs) (h : g.isBlank = true) :
    ∀ b ∈ g.bytes, IsNeutral b := by
  obtain ⟨b, rest, rfl⟩ := exists_first_of_mem_glyphs hg
  exact Glyph.isNeutral_of_first h

/-! ### Operands of a list -/

/-- A scan of the text cuts it nowhere. -/
def Uncut : Quote → Int → Text → Prop
  | _, _, [] => True
  | q, depth, b :: t =>
    ¬(q = .outside ∧ b = ascii ',' ∧ depth = 0) ∧ Uncut (q.step b) (depthAfter q depth b) t

namespace Uncut

variable {q : Quote} {depth : Int} {s t : Text}

theorem cutCommas_eq (h : Uncut q depth t) (held : Text) :
    cutCommas q depth held t = [held.reverse ++ t] := by
  induction t generalizing q depth held with
  | nil => rw [cutCommas_nil, List.append_nil]
  | cons b t ih =>
      rw [cutCommas_cons, if_neg h.1, ih h.2, List.reverse_cons, List.append_assoc]
      rfl

/-- What is cut off comes from a scan that cuts nowhere else. -/
theorem of_mem {held piece : Text} (h : piece ∈ cutCommas q depth held t) :
    (∃ p, piece = held.reverse ++ p ∧ Uncut q depth p) ∨ Uncut .outside 0 piece := by
  induction t generalizing q depth held with
  | nil =>
      rw [cutCommas_nil] at h
      have hpiece := List.mem_singleton.1 h
      exact .inl ⟨[], by simp [hpiece], trivial⟩
  | cons b t ih =>
      rw [cutCommas_cons] at h
      split at h
      · rcases List.mem_cons.1 h with rfl | hrest
        · exact .inl ⟨[], by simp, trivial⟩
        · right
          rcases ih hrest with ⟨p, rfl, hp⟩ | hpiece
          · exact hp
          · exact hpiece
      · rename_i hkept
        rcases ih h with ⟨p, rfl, hp⟩ | hpiece
        · exact .inl ⟨b :: p, by simp, hkept, hp⟩
        · exact .inr hpiece

theorem of_piece {piece : Text} (h : piece ∈ cutCommas .outside 0 [] t) : Uncut .outside 0 piece := by
  rcases of_mem h with ⟨p, rfl, hp⟩ | hp
  · exact hp
  · exact hp

theorem of_isPrefix (h : Uncut q depth t) (hs : s <+: t) : Uncut q depth s := by
  obtain ⟨more, rfl⟩ := hs
  induction s generalizing q depth with
  | nil => trivial
  | cons b s ih => exact ⟨h.1, ih h.2⟩

theorem behind (hs : ∀ b ∈ s, IsNeutral b) (h : Uncut .outside depth (s ++ t)) : Uncut .outside depth t := by
  induction s with
  | nil => exact h
  | cons b s ih =>
      obtain ⟨⟨-, hmark, hdepth⟩, hrest⟩ := List.forall_mem_cons.1 hs
      have hnext := h.2
      simp only [Quote.step, hmark, depthAfter, hdepth, Bool.false_eq_true, if_false, add_zero] at hnext
      exact ih hrest hnext

/-- Nothing is cut in what is left of a text without its blanks. -/
theorem trim (h : Uncut .outside depth t) : Uncut .outside depth t.trim := by
  have hsplit : ofGlyphs (t.glyphs.takeWhile Glyph.isBlank) ++
      ofGlyphs (t.glyphs.dropWhile Glyph.isBlank) = t := by
    rw [ofGlyphs, ofGlyphs, ← List.flatMap_append, List.takeWhile_append_dropWhile]
    exact ofGlyphs_glyphs t
  have hblank : ∀ b ∈ ofGlyphs (t.glyphs.takeWhile Glyph.isBlank), IsNeutral b := by
    intro b hb
    obtain ⟨g, hg, hb⟩ := List.mem_flatMap.1 hb
    have hmem := (List.takeWhile_prefix Glyph.isBlank).subset hg
    exact isNeutral_of_mem_glyphs hmem (List.mem_takeWhile_imp hg) b hb
  rw [← hsplit] at h
  exact (h.behind hblank).of_isPrefix (trim_isPrefix t)

end Uncut

/-- An operand is a list of one operand. -/
theorem splitOperands_of_mem {t w : Text} (h : w ∈ t.splitOperands) (hne : w ≠ []) :
    w.splitOperands = [w] := by
  rw [splitOperands_eq] at h
  split at h
  · cases h
  · obtain ⟨piece, hpiece, rfl⟩ := List.mem_map.1 h
    have hone := (Uncut.of_piece hpiece).trim.cutCommas_eq []
    rw [splitOperands_eq, trim_trim, if_neg (by simpa using hne), hone, List.map_singleton,
      List.reverse_nil, List.nil_append, trim_trim]

end Text

end VectorRisc
