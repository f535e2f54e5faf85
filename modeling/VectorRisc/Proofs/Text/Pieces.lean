/-
Module: VectorRisc.Proofs.Text.Pieces
Layer: Proofs
Purpose: What is cut out of a text is a piece of it. The glyphs of a text are its bytes again, so a trimmed
  text is a piece; so is a line of a source, and what is left of it without its comment.
Imports: Mathlib.Tactic, VectorRisc.Assembler.Source
Trusted boundary: none
Main exports: Text.ofGlyphs_glyphs, Text.trim_isInfix, Text.isInfix_of_mem_lines, Assembler.clean_isInfix
Open obligations: none
-/
import Mathlib.Tactic
import VectorRisc.Assembler.Source

namespace VectorRisc

/-! ### Glyphs -/

/-- The bytes of a glyph stand at the front of the text that it is cut from. -/
theorem Glyph.bytes_first_isPrefix (b : UInt8) (rest : Text) : (first b rest).bytes <+: b :: rest := by
  have hone : [b] <+: b :: rest := ⟨rest, rfl⟩
  unfold first
  split
  · exact hone
  · cases lead? b with
    | none => exact hone
    | some ask =>
        dsimp only
        split
        · exact List.cons_prefix_cons.2 ⟨rfl, List.take_prefix _ _⟩
        · exact hone

namespace Text

theorem ofGlyphs_glyphsFrom (skip : Nat) (t : Text) : ofGlyphs (glyphsFrom skip t) = t.drop skip := by
  induction t generalizing skip with
  | nil => cases skip <;> rfl
  | cons b rest ih =>
      cases skip with
      | succ skip => exact ih skip
      | zero =>
          obtain ⟨more, hmore⟩ := Glyph.bytes_first_isPrefix b rest
          have hpos := Glyph.first_bytes_pos b rest
          have hdrop : rest.drop ((Glyph.first b rest).bytes.length - 1) = more := by
            have hcons := congrArg (List.drop (Glyph.first b rest).bytes.length) hmore
            rw [List.drop_left] at hcons
            rw [hcons, ← Nat.sub_add_cancel hpos, List.drop_succ_cons, Nat.add_sub_cancel]
          rw [glyphsFrom, ofGlyphs, List.flatMap_cons, ← ofGlyphs, ih, hdrop, hmore, List.drop_zero]

/-- The glyphs of a text are its bytes. -/
theorem ofGlyphs_glyphs (t : Text) : ofGlyphs t.glyphs = t := ofGlyphs_glyphsFrom 0 t

theorem ofGlyphs_isInfix {gs hs : List Glyph} (h : gs <:+: hs) : ofGlyphs gs <:+: ofGlyphs hs := by
  obtain ⟨before, after, rfl⟩ := h
  exact ⟨ofGlyphs before, ofGlyphs after, by simp [ofGlyphs]⟩

theorem trim_isInfix (t : Text) : t.trim <:+: t := by
  have hglyphs : ((t.glyphs.dropWhile Glyph.isBlank).reverse.dropWhile Glyph.isBlank).reverse <:+:
      t.glyphs := by
    have hfront : t.glyphs.dropWhile Glyph.isBlank <:+: t.glyphs := (List.dropWhile_suffix _).isInfix
    refine List.IsInfix.trans ?_ hfront
    rw [← List.reverse_infix, List.reverse_reverse]
    exact (List.dropWhile_suffix _).isInfix
  have h := ofGlyphs_isInfix hglyphs
  rwa [ofGlyphs_glyphs] at h

/-! ### Lines -/

theorem isInfix_of_mem_cutLines {held t line : Text} (h : line ∈ cutLines held t) :
    line <:+: held.reverse ++ t := by
  induction t generalizing held with
  | nil =>
      rw [cutLines] at h
      split at h
      · cases h
      · rw [List.mem_singleton.1 h, List.append_nil]
  | cons b rest ih =>
      rw [cutLines] at h
      split at h
      · rcases List.mem_cons.1 h with rfl | hrest
        · exact (List.prefix_append _ _).isInfix
        · exact (ih hrest).trans ((List.suffix_cons b rest).trans (List.suffix_append _ _)).isInfix
      · have hline := ih h
        rwa [List.reverse_cons, List.append_assoc, List.singleton_append] at hline

theorem isInfix_of_mem_lines {t line : Text} (h : line ∈ t.lines) : line <:+: t := by
  obtain ⟨cut, hcut, rfl⟩ := List.mem_map.1 h
  refine List.IsInfix.trans ?_ (isInfix_of_mem_cutLines hcut)
  rw [dropReturn]
  split
  · exact (List.dropLast_prefix cut).isInfix
  · exact List.infix_rfl

theorem beforeUnquotedFrom_isPrefix (stop : UInt8) (q : Quote) (t : Text) :
    beforeUnquotedFrom stop q t <+: t := by
  induction t generalizing q with
  | nil => exact List.nil_prefix
  | cons b rest ih =>
      rw [beforeUnquotedFrom]
      split
      · exact List.nil_prefix
      · exact List.cons_prefix_cons.2 ⟨rfl, ih _⟩

end Text

/-- What is assembled of a line is a piece of it. -/
theorem Assembler.clean_isInfix (t : Text) : clean t <:+: t :=
  (Text.trim_isInfix _).trans (Text.beforeUnquotedFrom_isPrefix _ _ t).isInfix

end VectorRisc
