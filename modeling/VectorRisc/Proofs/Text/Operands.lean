/-
Module: VectorRisc.Proofs.Text.Operands
Layer: Proofs
Purpose: Lines of ASCII text. Every byte is a character of its own, so blanks are trimmed and words are
  split byte by byte, and operands without commas and quotes, whose parentheses are closed, are split
  again from the list they were joined to.
Imports: Mathlib.Tactic, VectorRisc.Proofs.Text.Scanning
Trusted boundary: none
Main exports: Text.glyphs_of_ascii, Text.Framed, Text.Framed.trim_eq, Text.trim_append_of_blank,
  Text.splitWord_append, Text.Separable, Text.splitOperands_join
Open obligations: none
-/
import Mathlib.Tactic
import VectorRisc.Proofs.Text.Scanning

namespace VectorRisc

namespace Text

/-! ### Blanks of ASCII text -/

/-- A byte that stands for a visible ASCII character. -/
def isVisible (b : UInt8) : Bool := 0x20 < b && b < 0x7f

theorem ascii_of_isVisible {b : UInt8} (h : isVisible b = true) : b < 0x80 := by
  simp only [isVisible, Bool.and_eq_true, decide_eq_true_eq] at h
  exact UInt8.lt_trans h.2 (by decide)

theorem blankCode_of_lt {code : Nat} (hlow : 0x20 < code) (hhigh : code < 0x7f) :
    Glyph.blankCode code = false := by
  simp only [Glyph.blankCode, Bool.or_eq_false_iff, Bool.and_eq_false_iff, decide_eq_false_iff_not]
  omega

theorem isBlank_of_isVisible {b : UInt8} (h : isVisible b = true) : (byteGlyph b).isBlank = false := by
  simp only [isVisible, Bool.and_eq_true, decide_eq_true_eq] at h
  exact blankCode_of_lt h.1 h.2

theorem glyphs_cons {b : UInt8} (h : b < 0x80) (t : Text) : glyphs (b :: t) = byteGlyph b :: glyphs t := by
  simp [glyphs, glyphsFrom, Glyph.first, byteGlyph, h]

theorem glyphs_append {s : Text} (hs : ∀ b ∈ s, b < 0x80) (t : Text) :
    glyphs (s ++ t) = s.map byteGlyph ++ glyphs t := by
  induction s with
  | nil => rfl
  | cons b s ih =>
      rw [List.cons_append, glyphs_cons (hs b (by simp)), ih fun c hc => hs c (by simp [hc])]
      rfl

theorem glyphs_of_ascii {t : Text} (ht : ∀ b ∈ t, b < 0x80) : glyphs t = t.map byteGlyph := by
  have h := glyphs_append ht []
  rw [List.append_nil] at h
  rw [h]
  exact List.append_nil _

@[simp] theorem ofGlyphs_map_byteGlyph (t : Text) : ofGlyphs (t.map byteGlyph) = t := by
  induction t with
  | nil => rfl
  | cons b t ih =>
      rw [List.map_cons, ofGlyphs, List.flatMap_cons]
      exact congrArg (b :: ·) ih

/-- Blanks in front of a text are trimmed away. -/
theorem trim_append_of_blank {s : Text} (hs : ∀ b ∈ s, b = ascii ' ') (t : Text) :
    trim (s ++ t) = trim t := by
  have hascii : ∀ b ∈ s, b < 0x80 := by
    intro b hb
    rw [hs b hb]
    decide
  have hblank : ∀ g ∈ s.map byteGlyph, g.isBlank = true := by
    intro g hg
    obtain ⟨b, hb, rfl⟩ := List.mem_map.1 hg
    rw [hs b hb]
    decide
  rw [trim, trim, glyphs_append hascii, List.dropWhile_append_of_pos hblank]

/-- An ASCII text with a visible character at either end. -/
structure Framed (t : Text) : Prop where
  nonempty : t ≠ []
  ascii : ∀ b ∈ t, b < 0x80
  first : ∀ b ∈ t.head?, isVisible b = true
  last : ∀ b ∈ t.getLast?, isVisible b = true

namespace Framed

variable {s t : Text}

theorem of_visible (hne : t ≠ []) (ht : ∀ b ∈ t, isVisible b = true) : Framed t where
  nonempty := hne
  ascii b hb := ascii_of_isVisible (ht b hb)
  first b hb := ht b (List.mem_of_mem_head? hb)
  last b hb := ht b (List.mem_of_mem_getLast? hb)

theorem append (hs : Framed s) (between : Text) (hbetween : ∀ b ∈ between, b < 0x80) (ht : Framed t) :
    Framed (s ++ between ++ t) where
  nonempty := by simp [hs.nonempty]
  ascii b hb := by
    simp only [List.mem_append] at hb
    rcases hb with (hb | hb) | hb
    · exact hs.ascii b hb
    · exact hbetween b hb
    · exact ht.ascii b hb
  first b hb := by
    rw [List.append_assoc, List.head?_append_of_ne_nil _ hs.nonempty] at hb
    exact hs.first b hb
  last b hb := by
    rw [List.getLast?_append_of_ne_nil _ ht.nonempty] at hb
    exact ht.last b hb

theorem trim_eq (h : Framed t) : trim t = t := by
  have hfront : (t.map byteGlyph).dropWhile Glyph.isBlank = t.map byteGlyph := by
    cases t with
    | nil => rfl
    | cons b t =>
        rw [List.map_cons, List.dropWhile_cons_of_neg]
        simp [isBlank_of_isVisible (h.first b rfl)]
  have hback : (t.map byteGlyph).reverse.dropWhile Glyph.isBlank = (t.map byteGlyph).reverse := by
    rcases List.eq_nil_or_concat t with rfl | ⟨s, b, rfl⟩
    · rfl
    · rw [List.concat_eq_append, List.map_append, List.reverse_append, List.map_singleton,
        List.reverse_singleton, List.singleton_append, List.dropWhile_cons_of_neg]
      simp [isBlank_of_isVisible (h.last b (by simp))]
  rw [trim, glyphs_of_ascii h.ascii]
  simp only [hfront, hback, List.reverse_reverse, ofGlyphs_map_byteGlyph]

end Framed

/-- The first word of a line ends at the first blank. -/
theorem splitWord_append {word rest : Text} (hword : ∀ b ∈ word, isVisible b = true)
    (hrest : ∀ b ∈ rest, b < 0x80) (hblank : ∀ b ∈ rest.head?, b = ascii ' ') :
    splitWord (word ++ rest) = (word, rest) := by
  have hshown : ∀ g ∈ word.map byteGlyph, (!g.isBlank) = true := by
    intro g hg
    obtain ⟨b, hb, rfl⟩ := List.mem_map.1 hg
    simp [isBlank_of_isVisible (hword b hb)]
  have hstop : ∀ g ∈ (rest.map byteGlyph).head?, (!g.isBlank) = false := by
    intro g hg
    rw [List.head?_map, Option.mem_map] at hg
    obtain ⟨b, hb, rfl⟩ := hg
    rw [hblank b hb]
    decide
  have hends : (rest.map byteGlyph).takeWhile (fun g => !g.isBlank) = [] ∧
      (rest.map byteGlyph).dropWhile (fun g => !g.isBlank) = rest.map byteGlyph := by
    cases rest with
    | nil => exact ⟨rfl, rfl⟩
    | cons b rest =>
        have hb := hstop (byteGlyph b) rfl
        rw [List.map_cons, List.takeWhile_cons_of_neg (by simp [hb]),
          List.dropWhile_cons_of_neg (by simp [hb])]
        exact ⟨rfl, rfl⟩
  rw [splitWord, glyphs_append fun b hb => ascii_of_isVisible (hword b hb), glyphs_of_ascii hrest]
  simp only [List.takeWhile_append_of_pos hshown, List.dropWhile_append_of_pos hshown, hends,
    List.append_nil, ofGlyphs_map_byteGlyph]

/-! ### Operand lists -/

/-- The byte neither separates operands nor opens quotes. -/
def isInner (b : UInt8) : Bool := isVisible b && b ≠ ascii ',' && !Quote.isMark b

/-- A text that can stand between commas: it has no blanks, commas and quotes, and its parentheses are
    closed. -/
structure Separable (t : Text) : Prop where
  nonempty : t ≠ []
  inner : ∀ b ∈ t, isInner b = true
  closed : (t.map depthStep).sum = 0

/-- A byte of a plain word, which has no parentheses either. -/
def isWordByte (b : UInt8) : Bool := isInner b && depthStep b = 0

theorem isVisible_of_isInner {b : UInt8} (h : isInner b = true) : isVisible b = true := by
  simp only [isInner, Bool.and_eq_true] at h
  exact h.1.1

namespace Separable

variable {t : Text}

theorem framed (h : t.Separable) : t.Framed :=
  .of_visible h.nonempty fun b hb => isVisible_of_isInner (h.inner b hb)

/-- A plain word can stand between commas. -/
theorem of_word (hne : t ≠ []) (ht : ∀ b ∈ t, isWordByte b = true) : t.Separable := by
  have hbytes : ∀ b ∈ t, isInner b = true ∧ depthStep b = 0 := fun b hb => by
    simpa [isWordByte] using ht b hb
  refine ⟨hne, fun b hb => (hbytes b hb).1, List.sum_eq_zero fun d hd => ?_⟩
  obtain ⟨b, hb, rfl⟩ := List.mem_map.1 hd
  exact (hbytes b hb).2

/-- An operand with another one in parentheses behind it can stand there too. -/
theorem indexed (h : t.Separable) {s : Text} (hs : s.Separable) :
    Separable (t ++ [ascii '('] ++ s ++ [ascii ')']) where
  nonempty := by simp
  inner b hb := by
    simp only [List.mem_append, List.mem_singleton] at hb
    rcases hb with ((hb | rfl) | hb) | rfl
    · exact h.inner b hb
    · decide
    · exact hs.inner b hb
    · decide
  closed := by
    have hopen : depthStep (ascii '(') = 1 := by decide
    have hclose : depthStep (ascii ')') = -1 := by decide
    simp only [List.map_append, List.map_singleton, List.sum_append, List.sum_singleton, h.closed, hs.closed,
      hopen, hclose]
    rfl

theorem trim_held (h : t.Separable) {held : Text} (hheld : ∀ b ∈ held, b = ascii ' ') :
    trim (t.reverse ++ held).reverse = t := by
  rw [List.reverse_append, List.reverse_reverse, trim_append_of_blank (by simpa using hheld),
    h.framed.trim_eq]

end Separable

/-- Bytes that separate nothing are held, whatever the depth is. -/
theorem cutCommas_append {s : Text} (hs : ∀ b ∈ s, isInner b = true) (depth : Int) (held t : Text) :
    cutCommas .outside depth held (s ++ t) =
      cutCommas .outside (depth + (s.map depthStep).sum) (s.reverse ++ held) t := by
  induction s generalizing depth held with
  | nil => simp
  | cons b s ih =>
      obtain ⟨⟨-, hcomma⟩, hmark⟩ : (isVisible b = true ∧ b ≠ ascii ',') ∧ Quote.isMark b = false := by
        simpa [isInner] using hs b (by simp)
      have hquote : Quote.outside.step b = .outside := by simp [Quote.step, hmark]
      rw [List.cons_append, cutCommas, if_neg (by simp [hcomma]), hquote,
        ih (fun c hc => hs c (by simp [hc]))]
      simp [add_assoc]

/-- The separator is a comma and a blank. -/
theorem join_cons_cons (t s : Text) (ts : List Text) :
    join (ofString ", ") (t :: s :: ts) =
      t ++ [ascii ',', ascii ' '] ++ join (ofString ", ") (s :: ts) := by
  have hseparator : ofString ", " = [ascii ',', ascii ' '] := by decide
  rw [join, hseparator]
  simp

theorem framed_join {t : Text} {ts : List Text} (ht : t.Separable) (hts : ∀ s ∈ ts, Separable s) :
    Framed (join (ofString ", ") (t :: ts)) := by
  induction ts generalizing t with
  | nil => exact ht.framed
  | cons s ts ih =>
      obtain ⟨hs, hts⟩ := List.forall_mem_cons.1 hts
      rw [join_cons_cons]
      refine ht.framed.append _ ?_ (ih hs hts)
      exact List.forall_mem_cons.2 ⟨by decide, List.forall_mem_singleton.2 (by decide)⟩

/-- The pieces of a list of operands are the operands, but for blanks in front of them. -/
theorem cutCommas_join {t : Text} {ts : List Text} (ht : t.Separable) (hts : ∀ s ∈ ts, Separable s)
    (held : Text) (hheld : ∀ b ∈ held, b = ascii ' ') :
    (cutCommas .outside 0 held (join (ofString ", ") (t :: ts))).map trim = t :: ts := by
  induction ts generalizing t held with
  | nil =>
      have hall := cutCommas_append ht.inner 0 held []
      rw [List.append_nil] at hall
      rw [join, hall, cutCommas, List.map_singleton, ht.trim_held hheld]
  | cons s ts ih =>
      obtain ⟨hs, hts⟩ := List.forall_mem_cons.1 hts
      -- the blank behind the comma is held in front of the next operand
      have hnext : cutCommas .outside 0 [] (ascii ' ' :: join (ofString ", ") (s :: ts)) =
          cutCommas .outside 0 [ascii ' '] (join (ofString ", ") (s :: ts)) := by
        rw [cutCommas, if_neg (by decide)]
        rfl
      have hpieces := ih hs hts [ascii ' '] (by simp)
      rw [join_cons_cons, List.append_assoc, cutCommas_append ht.inner, ht.closed, List.cons_append,
        List.singleton_append, cutCommas, if_pos (by simp), List.map_cons, ht.trim_held hheld, hnext, hpieces]

/-- Operands that are joined with commas are split again, also behind blanks. -/
theorem splitOperands_join {blanks : Text} (hblanks : ∀ b ∈ blanks, b = ascii ' ') {ts : List Text}
    (hts : ∀ t ∈ ts, Separable t) : splitOperands (blanks ++ join (ofString ", ") ts) = ts := by
  rw [splitOperands_eq, trim_append_of_blank hblanks]
  cases ts with
  | nil => rfl
  | cons t ts =>
      obtain ⟨ht, hts⟩ := List.forall_mem_cons.1 hts
      have hframed := framed_join ht hts
      rw [hframed.trim_eq, if_neg (by simpa using hframed.nonempty)]
      exact cutCommas_join ht hts [] (by simp)

end Text

end VectorRisc
