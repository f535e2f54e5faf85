/-
Module: VectorRisc.Proofs.Text.Scanning
Layer: Proofs
Purpose: Operand lists byte by byte. The characters that mean something to a scan of operands are single
  bytes, and the bytes of the others mean nothing to it, so a list is cut at the same places whether its
  characters are looked at or its bytes.
Imports: Mathlib.Tactic, VectorRisc.Proofs.Text.Glyphs
Trusted boundary: none
Main exports: Quote.Opened, Glyph.first_wide, Quote.after_first, Quote.after_ofGlyphs, Text.cutCommas,
  Text.depthOver, Text.depthOver_ofGlyphs, Text.cutOperands_glyphs, Text.splitOperands_eq
Open obligations: none
-/
import Mathlib.Tactic
import VectorRisc.Proofs.Text.Glyphs

namespace VectorRisc

/-! ### Single bytes and wide characters -/

/-- The glyph of an ASCII byte. -/
def Text.byteGlyph (b : UInt8) : Glyph := ⟨b.toNat, [b]⟩

namespace Glyph

open Text (byteGlyph)

theorem first_of_ascii {b : UInt8} (h : b < 0x80) (rest : Text) : first b rest = byteGlyph b := if_pos h

theorem le_of_tailFits {lo hi : UInt8} (hlo : 0x80 ≤ lo) {tail : Text} (h : tailFits lo hi tail = true) :
    ∀ b ∈ tail, 0x80 ≤ b := by
  cases tail with
  | nil => simp
  | cons c tail =>
      simp only [tailFits, Bool.and_eq_true, decide_eq_true_eq, List.all_eq_true] at h
      intro b hb
      rcases List.mem_cons.1 hb with rfl | hrest
      · exact UInt8.le_trans hlo h.1.1
      · exact (h.2 b hrest).1

/-- A character that starts with no ASCII byte is none, and has no ASCII byte. -/
theorem first_wide {b : UInt8} (hb : 0x80 ≤ b) (rest : Text) :
    0x80 ≤ (first b rest).code ∧ ∀ c ∈ (first b rest).bytes, 0x80 ≤ c := by
  constructor
  · rcases first_cases b rest with hstray | ⟨tail, -, hencode, -⟩
    · rw [hstray]
      exact (by decide : 0x80 ≤ replacement)
    · -- a smaller code point would be encoded as one smaller byte
      by_contra hsmall
      have hlt := Nat.not_le.1 hsmall
      have hvalue : (UInt8.ofNat (first b rest).code).toNat = (first b rest).code :=
        UInt8.toNat_ofNat_of_lt' (hlt.trans (by decide))
      have hone := encodePoint_one (b := UInt8.ofNat (first b rest).code) (by rwa [hvalue])
      rw [hvalue, hencode] at hone
      have hhead : b = UInt8.ofNat (first b rest).code := (List.cons.inj hone).1
      have hbound := UInt8.le_iff_toNat_le.1 hb
      rw [hhead, hvalue] at hbound
      exact hsmall hbound
  · rw [first, if_neg (UInt8.not_lt.2 hb)]
    cases hask : lead? b with
    | none => simpa using hb
    | some ask =>
        obtain ⟨n, lo, hi⟩ := ask
        dsimp only
        split
        · rename_i hfits
          refine List.forall_mem_cons.2 ⟨hb, ?_⟩
          exact le_of_tailFits (lead?_cases hask).1 (Bool.and_eq_true_iff.1 hfits).2
        · simpa using hb

theorem shows_byteGlyph {c : Char} (hc : c.toNat < 256) (b : UInt8) :
    (byteGlyph b).shows c = true ↔ b = ascii c := by
  have hvalue : (ascii c).toNat = c.toNat := UInt8.toNat_ofNat_of_lt' hc
  rw [shows, decide_eq_true_eq, ← UInt8.toNat_inj, hvalue]
  rfl

theorem shows_wide {c : Char} (hc : c.toNat < 0x80) {g : Glyph} (hg : 0x80 ≤ g.code) : g.shows c = false := by
  simp only [shows, decide_eq_false_iff_not]
  omega

end Glyph

/-! ### Quotes -/

namespace Quote

open Text (byteGlyph)

variable {q : Quote}

/-- The quotes that the scan stands in were opened by a mark. -/
def Opened : Quote → Prop
  | .outside => True
  | .inside mark => isMark mark = true
  | .escaped mark => isMark mark = true

theorem isMark_iff {b : UInt8} : isMark b = true ↔ b = ascii '"' ∨ b = ascii '\'' := by
  simp [isMark]

theorem lt_of_isMark {b : UInt8} (h : isMark b = true) : b < 0x80 := by
  rcases isMark_iff.1 h with rfl | rfl <;> decide

theorem Opened.step (h : q.Opened) (b : UInt8) : (q.step b).Opened := by
  cases q with
  | outside =>
      rw [Quote.step]
      split
      · assumption
      · trivial
  | inside mark =>
      rw [Quote.step]
      split
      · exact h
      · split
        · trivial
        · exact h
  | escaped mark => exact h

theorem after_append (q : Quote) (s t : Text) : q.after (s ++ t) = (q.after s).after t := List.foldl_append

theorem Opened.after (h : q.Opened) (t : Text) : (q.after t).Opened := by
  induction t generalizing q with
  | nil => exact h
  | cons b t ih => exact ih (h.step b)

/-- Where the scan stands behind what neither opens nor closes quotes. -/
def resume : Quote → Quote
  | .escaped mark => .inside mark
  | q => q

@[simp] theorem resume_resume (q : Quote) : q.resume.resume = q.resume := by
  cases q <;> rfl

theorem Opened.resume (h : q.Opened) : q.resume.Opened := by
  cases q <;> exact h

theorem step_wide (h : q.Opened) {b : UInt8} (hb : 0x80 ≤ b) : q.step b = q.resume := by
  have hne {c : UInt8} (hc : c < 0x80) : b ≠ c := by
    rintro rfl
    exact absurd hb (UInt8.not_le.2 hc)
  cases q with
  | outside =>
      rw [step, if_neg]
      · rfl
      · exact fun hmark => hne (lt_of_isMark hmark) rfl
  | inside mark =>
      rw [step, if_neg (hne (by decide)), if_neg (hne (lt_of_isMark h))]
      rfl
  | escaped mark => rfl

theorem after_wide (h : q.Opened) {s : Text} (hne : s ≠ []) (hs : ∀ c ∈ s, 0x80 ≤ c) :
    q.after s = q.resume := by
  induction s generalizing q with
  | nil => exact absurd rfl hne
  | cons b s ih =>
      obtain ⟨hb, hrest⟩ := List.forall_mem_cons.1 hs
      rw [after, List.foldl_cons, step_wide h hb, ← after]
      cases s with
      | nil => rfl
      | cons c s => rw [ih h.resume (List.cons_ne_nil c s) hrest, resume_resume]

theorem stepGlyph_byteGlyph (q : Quote) (b : UInt8) : q.stepGlyph (byteGlyph b) = q.step b := by
  cases q with
  | outside =>
      simp only [stepGlyph, step, Bool.or_eq_true, Glyph.shows_byteGlyph (c := '"') (by decide),
        Glyph.shows_byteGlyph (c := '\'') (by decide), isMark_iff]
      rw [show UInt8.ofNat (byteGlyph b).code = b from UInt8.ofNat_toNat]
  | inside mark =>
      have hclose : (byteGlyph b).code = mark.toNat ↔ b = mark := UInt8.toNat_inj
      simp only [stepGlyph, step, Glyph.shows_byteGlyph (c := '\\') (by decide), hclose]
  | escaped mark => rfl

theorem stepGlyph_wide (h : q.Opened) {g : Glyph} (hg : 0x80 ≤ g.code) : q.stepGlyph g = q.resume := by
  cases q with
  | outside =>
      simp only [stepGlyph, Glyph.shows_wide (c := '"') (by decide) hg,
        Glyph.shows_wide (c := '\'') (by decide) hg, Bool.or_self, Bool.false_eq_true, if_false, Quote.resume]
  | inside mark =>
      have hmark : g.code ≠ mark.toNat := by
        have hlt := UInt8.lt_iff_toNat_lt.1 (lt_of_isMark h)
        have hvalue : (0x80 : UInt8).toNat = 0x80 := rfl
        omega
      simp only [stepGlyph, Glyph.shows_wide (c := '\\') (by decide) hg, Bool.false_eq_true, if_false,
        if_neg hmark, Quote.resume]
  | escaped mark => rfl

/-- A character takes the scan where its bytes take it. -/
theorem after_first (h : q.Opened) (b : UInt8) (rest : Text) :
    q.after (Glyph.first b rest).bytes = q.stepGlyph (Glyph.first b rest) := by
  by_cases hb : b < 0x80
  · rw [Glyph.first_of_ascii hb, stepGlyph_byteGlyph]
    rfl
  · obtain ⟨hcode, hbytes⟩ := Glyph.first_wide (UInt8.not_lt.1 hb) rest
    rw [stepGlyph_wide h hcode, after_wide h (List.ne_nil_of_length_pos (Glyph.first_bytes_pos b rest)) hbytes]

/-- Characters from the front of a text take the scan where their bytes take it. -/
theorem after_ofGlyphs (h : q.Opened) {gs : List Glyph} {t : Text} (hgs : gs <+: t.glyphs) :
    gs.foldl stepGlyph q = q.after (Text.ofGlyphs gs) := by
  induction t using Text.glyph_induction generalizing q gs with
  | nil =>
      rw [List.prefix_nil.1 hgs]
      rfl
  | glyph b rest more hmore hglyphs ih =>
      cases gs with
      | nil => rfl
      | cons g gs =>
          rw [hglyphs, List.cons_prefix_cons] at hgs
          obtain ⟨rfl, hrest⟩ := hgs
          have hstep := after_first h b rest
          have hopened := h.after (Glyph.first b rest).bytes
          rw [hstep] at hopened
          rw [List.foldl_cons, ih hopened hrest, Text.ofGlyphs, Text.ofGlyphs, List.flatMap_cons, after_append,
            hstep]

end Quote

/-! ### Operands byte by byte -/

namespace Text

/-- How an unquoted byte moves the parenthesis depth. -/
def depthStep (b : UInt8) : Int :=
  if b = ascii '(' then 1 else if b = ascii ')' then -1 else 0

/-- Cut at every unquoted comma at depth zero. The bytes of the current piece are held in reverse. -/
def cutCommas : (q : Quote) → (depth : Int) → (held : Text) → Text → List Text
  | _, _, held, [] => [held.reverse]
  | .outside, depth, held, b :: rest =>
    if b = ascii ',' && depth = 0 then held.reverse :: cutCommas .outside 0 [] rest
    else cutCommas (Quote.outside.step b) (depth + depthStep b) (b :: held) rest
  | q, depth, held, b :: rest => cutCommas (q.step b) depth (b :: held) rest

/-- How a byte moves the parenthesis depth: not at all inside quotes. -/
def depthAfter : Quote → Int → UInt8 → Int
  | .outside, depth, b => depth + depthStep b
  | _, depth, _ => depth

/-- The parenthesis depth after a scan of the text. -/
def depthOver : Quote → (depth : Int) → Text → Int
  | _, depth, [] => depth
  | q, depth, b :: t => depthOver (q.step b) (depthAfter q depth b) t

theorem depthOver_append (q : Quote) (depth : Int) (s t : Text) :
    depthOver q depth (s ++ t) = depthOver (q.after s) (depthOver q depth s) t := by
  induction s generalizing q depth with
  | nil => rfl
  | cons b s ih => exact ih (q.step b) (depthAfter q depth b)

theorem cutCommas_nil (q : Quote) (depth : Int) (held : Text) : cutCommas q depth held [] = [held.reverse] := by
  cases q <;> rfl

theorem cutCommas_cons (q : Quote) (depth : Int) (held : Text) (b : UInt8) (t : Text) :
    cutCommas q depth held (b :: t) =
      if q = .outside ∧ b = ascii ',' ∧ depth = 0 then held.reverse :: cutCommas .outside 0 [] t
      else cutCommas (q.step b) (depthAfter q depth b) (b :: held) t := by
  cases q with
  | outside => simp [cutCommas, depthAfter]
  | inside mark => simp [cutCommas, depthAfter]
  | escaped mark => simp [cutCommas, depthAfter]

/-- How a character moves the parenthesis depth: not at all inside quotes. -/
def depthAfterGlyph : Quote → Int → Glyph → Int
  | .outside, depth, g => depth + g.depthStep
  | _, depth, _ => depth

theorem cutOperands_nil (q : Quote) (depth : Int) (held : List Glyph) :
    cutOperands q depth held [] = [ofGlyphs held.reverse] := by
  cases q <;> rfl

theorem cutOperands_cons (q : Quote) (depth : Int) (held : List Glyph) (g : Glyph) (gs : List Glyph) :
    cutOperands q depth held (g :: gs) =
      if q = .outside ∧ g.shows ',' = true ∧ depth = 0 then ofGlyphs held.reverse :: cutOperands .outside 0 [] gs
      else cutOperands (q.stepGlyph g) (depthAfterGlyph q depth g) (g :: held) gs := by
  cases q with
  | outside => simp [cutOperands, depthAfterGlyph]
  | inside mark => simp [cutOperands, depthAfterGlyph]
  | escaped mark => simp [cutOperands, depthAfterGlyph]

theorem depthAfter_wide {b : UInt8} (hb : 0x80 ≤ b) (q : Quote) (depth : Int) :
    depthAfter q depth b = depth := by
  have hne {c : UInt8} (hc : c < 0x80) : b ≠ c := by
    rintro rfl
    exact absurd hb (UInt8.not_le.2 hc)
  cases q with
  | outside => rw [depthAfter, depthStep, if_neg (hne (by decide)), if_neg (hne (by decide)), add_zero]
  | inside mark => rfl
  | escaped mark => rfl

theorem depthAfterGlyph_byteGlyph (q : Quote) (depth : Int) (b : UInt8) :
    depthAfterGlyph q depth (byteGlyph b) = depthAfter q depth b := by
  cases q with
  | outside =>
      simp only [depthAfterGlyph, depthAfter, Glyph.depthStep, depthStep,
        Glyph.shows_byteGlyph (c := '(') (by decide), Glyph.shows_byteGlyph (c := ')') (by decide)]
  | inside mark => rfl
  | escaped mark => rfl

theorem depthAfterGlyph_wide {g : Glyph} (hg : 0x80 ≤ g.code) (q : Quote) (depth : Int) :
    depthAfterGlyph q depth g = depth := by
  cases q with
  | outside =>
      simp only [depthAfterGlyph, Glyph.depthStep, Glyph.shows_wide (c := '(') (by decide) hg,
        Glyph.shows_wide (c := ')') (by decide) hg, Bool.false_eq_true, if_false, add_zero]
  | inside mark => rfl
  | escaped mark => rfl

/-- The parenthesis depth after a scan of some characters. -/
def depthOverGlyphs : Quote → (depth : Int) → List Glyph → Int
  | _, depth, [] => depth
  | q, depth, g :: gs => depthOverGlyphs (q.stepGlyph g) (depthAfterGlyph q depth g) gs

theorem depthOver_wide {q : Quote} (h : q.Opened) {s : Text} (hs : ∀ c ∈ s, 0x80 ≤ c) (depth : Int) :
    depthOver q depth s = depth := by
  induction s generalizing q with
  | nil => rfl
  | cons b s ih =>
      obtain ⟨hb, hrest⟩ := List.forall_mem_cons.1 hs
      rw [depthOver, depthAfter_wide hb, ih (h.step b) hrest]

/-- Characters from the front of a text move the depth as their bytes do. -/
theorem depthOver_ofGlyphs {q : Quote} (h : q.Opened) (depth : Int) {gs : List Glyph} {t : Text}
    (hgs : gs <+: t.glyphs) : depthOverGlyphs q depth gs = depthOver q depth (ofGlyphs gs) := by
  induction t using glyph_induction generalizing q depth gs with
  | nil =>
      rw [List.prefix_nil.1 hgs]
      rfl
  | glyph b rest more hmore hglyphs ih =>
      cases gs with
      | nil => rfl
      | cons g gs =>
          rw [hglyphs, List.cons_prefix_cons] at hgs
          obtain ⟨rfl, hrest⟩ := hgs
          have hopened := h.after (Glyph.first b rest).bytes
          have hbytes : depthOver q depth (Glyph.first b rest).bytes =
              depthAfterGlyph q depth (Glyph.first b rest) := by
            by_cases hb : b < 0x80
            · rw [Glyph.first_of_ascii hb, depthAfterGlyph_byteGlyph]
              rfl
            · obtain ⟨hcode, hwide⟩ := Glyph.first_wide (UInt8.not_lt.1 hb) rest
              rw [depthAfterGlyph_wide hcode, depthOver_wide h hwide]
          rw [Quote.after_first h] at hopened
          rw [depthOverGlyphs, ih hopened _ hrest, ofGlyphs, ofGlyphs, List.flatMap_cons, depthOver_append,
            Quote.after_first h, hbytes]

/-- The bytes of wide characters separate nothing. -/
theorem cutCommas_wide {q : Quote} (h : q.Opened) {s : Text} (hs : ∀ c ∈ s, 0x80 ≤ c) (depth : Int)
    (held t : Text) : cutCommas q depth held (s ++ t) = cutCommas (q.after s) depth (s.reverse ++ held) t := by
  induction s generalizing q held with
  | nil => rfl
  | cons b s ih =>
      obtain ⟨hb, hrest⟩ := List.forall_mem_cons.1 hs
      have hcomma : b ≠ ascii ',' := by
        rintro rfl
        exact absurd hb (by decide)
      rw [List.cons_append, cutCommas_cons, if_neg fun hcut => hcomma hcut.2.1, depthAfter_wide hb,
        ih (h.step b) hrest, List.reverse_cons, List.append_assoc]
      rfl

/-- A text is cut between its characters where it is cut between its bytes. -/
theorem cutOperands_glyphs {q : Quote} (h : q.Opened) (depth : Int) (held : List Glyph) (t : Text) :
    cutOperands q depth held t.glyphs = cutCommas q depth (ofGlyphs held.reverse).reverse t := by
  induction t using glyph_induction generalizing q depth held with
  | nil =>
      rw [glyphs, glyphsFrom, cutOperands_nil, cutCommas_nil, List.reverse_reverse]
  | glyph b rest more hmore hglyphs ih =>
      have hheld : (ofGlyphs (Glyph.first b rest :: held).reverse).reverse =
          (Glyph.first b rest).bytes.reverse ++ (ofGlyphs held.reverse).reverse := by
        simp [ofGlyphs]
      have hnext : (q.stepGlyph (Glyph.first b rest)).Opened := by
        rw [← Quote.after_first h]
        exact h.after _
      rw [hglyphs, cutOperands_cons, hmore]
      by_cases hb : b < 0x80
      · rw [Glyph.first_of_ascii hb] at hnext hheld ⊢
        have houtside : Quote.outside.Opened := trivial
        rw [Quote.stepGlyph_byteGlyph] at hnext
        simp only [Glyph.shows_byteGlyph (c := ',') (by decide), depthAfterGlyph_byteGlyph,
          Quote.stepGlyph_byteGlyph, ih hnext, ih houtside, hheld]
        rw [show (byteGlyph b).bytes ++ more = b :: more from rfl, cutCommas_cons, List.reverse_reverse]
        rfl
      · obtain ⟨hcode, hbytes⟩ := Glyph.first_wide (UInt8.not_lt.1 hb) rest
        rw [Glyph.shows_wide (c := ',') (by decide) hcode, if_neg (by simp), depthAfterGlyph_wide hcode,
          ih hnext, hheld, cutCommas_wide h hbytes, Quote.after_first h]

/-- An operand list is cut at its unquoted commas at depth zero, byte by byte. -/
theorem splitOperands_eq (t : Text) :
    t.splitOperands = if t.trim.isEmpty then [] else (cutCommas .outside 0 [] t.trim).map trim := by
  have houtside : Quote.outside.Opened := trivial
  rw [splitOperands, cutOperands_glyphs houtside]
  rfl

end Text

end VectorRisc
