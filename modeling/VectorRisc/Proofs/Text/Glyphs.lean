/-
Module: VectorRisc.Proofs.Text.Glyphs
Layer: Proofs
Purpose: Characters and their bytes. A well-formed character is encoded as the bytes it was read from, and
  is read from them whatever follows; a stray byte is read as the replacement character. A run of glyphs
  that is cut off a text at either end is found again in its bytes.
Imports: Mathlib.Tactic, VectorRisc.Proofs.Text.Pieces
Trusted boundary: none
Main exports: Glyph.encodePoint_foldTail, Glyph.first_cases, Text.glyphs_cons_eq, Text.glyph_induction,
  Text.glyphs_ofGlyphs_of_suffix, Text.glyphs_ofGlyphs_of_prefix, Text.glyphs_encodePoint_append,
  Text.codes_flatMap_encodePoint
Open obligations: none
-/
import Mathlib.Tactic
import VectorRisc.Proofs.Text.Pieces

namespace VectorRisc

/-! ### Characters -/

namespace Glyph

open Text (encodePoint isPoint)

section Bytes

variable {b s t u : UInt8}

/-- The byte carries six bits of a code point. -/
def Continues (b : UInt8) : Prop := 0x80 ≤ b.toNat ∧ b.toNat ≤ 0xbf

theorem encodePoint_one (hb : b.toNat < 0x80) : encodePoint b.toNat = [b] := by
  have hpoint : isPoint b.toNat = true := by
    simp only [isPoint, Bool.or_eq_true, decide_eq_true_eq]
    omega
  simp only [encodePoint, hpoint, if_true, if_pos hb, UInt8.ofNat_toNat]

theorem encodePoint_two (hb : 0xc2 ≤ b.toNat ∧ b.toNat ≤ 0xdf) (hs : Continues s) :
    encodePoint (b.toNat % 32 * 64 + s.toNat % 64) = [b, s] := by
  obtain ⟨hlow, hhigh⟩ := hs
  generalize hc : b.toNat % 32 * 64 + s.toNat % 64 = c
  have hpoint : isPoint c = true := by
    simp only [isPoint, Bool.or_eq_true, decide_eq_true_eq]
    omega
  have hlead : 0xc0 + c / 64 = b.toNat := by omega
  have htail : 0x80 + c % 64 = s.toNat := by omega
  simp only [encodePoint, hpoint, if_true, if_neg (show ¬ c < 0x80 by omega),
    if_pos (show c < 0x800 by omega), Nat.shiftRight_zero, hlead, htail, UInt8.ofNat_toNat]

theorem encodePoint_three (hb : 0xe0 ≤ b.toNat ∧ b.toNat ≤ 0xef) (hs : Continues s) (ht : Continues t)
    (hlong : b.toNat = 0xe0 → 0xa0 ≤ s.toNat) (hsurrogate : b.toNat = 0xed → s.toNat ≤ 0x9f) :
    encodePoint ((b.toNat % 16 * 64 + s.toNat % 64) * 64 + t.toNat % 64) = [b, s, t] := by
  obtain ⟨hslow, hshigh⟩ := hs
  obtain ⟨htlow, hthigh⟩ := ht
  generalize hc : (b.toNat % 16 * 64 + s.toNat % 64) * 64 + t.toNat % 64 = c
  have hpoint : isPoint c = true := by
    simp only [isPoint, Bool.or_eq_true, Bool.and_eq_true, decide_eq_true_eq]
    omega
  have hlead : 0xe0 + c / 4096 = b.toNat := by omega
  have hsecond : 0x80 + (c >>> 6) % 64 = s.toNat := by
    rw [Nat.shiftRight_eq_div_pow]
    omega
  have hthird : 0x80 + c % 64 = t.toNat := by omega
  simp only [encodePoint, hpoint, if_true, if_neg (show ¬ c < 0x80 by omega),
    if_neg (show ¬ c < 0x800 by omega), if_pos (show c < 0x10000 by omega), Nat.shiftRight_zero, hlead,
    hsecond, hthird, UInt8.ofNat_toNat]

theorem encodePoint_four (hb : 0xf0 ≤ b.toNat ∧ b.toNat ≤ 0xf4) (hs : Continues s) (ht : Continues t)
    (hu : Continues u) (hlong : b.toNat = 0xf0 → 0x90 ≤ s.toNat) (hlast : b.toNat = 0xf4 → s.toNat ≤ 0x8f) :
    encodePoint (((b.toNat % 8 * 64 + s.toNat % 64) * 64 + t.toNat % 64) * 64 + u.toNat % 64) =
      [b, s, t, u] := by
  obtain ⟨hslow, hshigh⟩ := hs
  obtain ⟨htlow, hthigh⟩ := ht
  obtain ⟨hulow, huhigh⟩ := hu
  generalize hc : ((b.toNat % 8 * 64 + s.toNat % 64) * 64 + t.toNat % 64) * 64 + u.toNat % 64 = c
  have hpoint : isPoint c = true := by
    simp only [isPoint, Bool.or_eq_true, Bool.and_eq_true, decide_eq_true_eq]
    omega
  have hlead : 0xf0 + c / 262144 = b.toNat := by omega
  have hsecond : 0x80 + (c >>> 12) % 64 = s.toNat := by
    rw [Nat.shiftRight_eq_div_pow]
    omega
  have hthird : 0x80 + (c >>> 6) % 64 = t.toNat := by
    rw [Nat.shiftRight_eq_div_pow]
    omega
  have hfourth : 0x80 + c % 64 = u.toNat := by omega
  simp only [encodePoint, hpoint, if_true, if_neg (show ¬ c < 0x80 by omega),
    if_neg (show ¬ c < 0x800 by omega), if_neg (show ¬ c < 0x10000 by omega), Nat.shiftRight_zero, hlead,
    hsecond, hthird, hfourth, UInt8.ofNat_toNat]

theorem continues_of_le (hlow : 0x80 ≤ b) (hhigh : b ≤ 0xbf) : Continues b :=
  ⟨UInt8.le_iff_toNat_le.1 hlow, UInt8.le_iff_toNat_le.1 hhigh⟩

/-- What the following bytes of a lead byte are. -/
theorem continues_of_tailFits {lo hi : UInt8} (hlo : 0x80 ≤ lo) (hhi : hi ≤ 0xbf) {rest : Text}
    (h : tailFits lo hi (s :: rest) = true) :
    lo.toNat ≤ s.toNat ∧ s.toNat ≤ hi.toNat ∧ ∀ c ∈ s :: rest, Continues c := by
  simp only [tailFits, Bool.and_eq_true, decide_eq_true_eq, List.all_eq_true] at h
  obtain ⟨⟨hlow, hhigh⟩, hrest⟩ := h
  refine ⟨UInt8.le_iff_toNat_le.1 hlow, UInt8.le_iff_toNat_le.1 hhigh, ?_⟩
  rw [List.forall_mem_cons]
  exact ⟨continues_of_le (UInt8.le_trans hlo hlow) (UInt8.le_trans hhigh hhi),
    fun c hc => continues_of_le (hrest c hc).1 (hrest c hc).2⟩

end Bytes

/-- What a lead byte asks for, by the length of the character. -/
theorem lead?_cases {b lo hi : UInt8} {n : Nat} (h : lead? b = some (n, lo, hi)) :
    0x80 ≤ lo ∧ hi ≤ 0xbf ∧
      ((n = 1 ∧ 0xc2 ≤ b.toNat ∧ b.toNat ≤ 0xdf) ∨
        (n = 2 ∧ (0xe0 ≤ b.toNat ∧ b.toNat ≤ 0xef) ∧ (b.toNat = 0xe0 → 0xa0 ≤ lo.toNat) ∧
          (b.toNat = 0xed → hi.toNat ≤ 0x9f)) ∨
        (n = 3 ∧ (0xf0 ≤ b.toNat ∧ b.toNat ≤ 0xf4) ∧ (b.toNat = 0xf0 → 0x90 ≤ lo.toNat) ∧
          (b.toNat = 0xf4 → hi.toNat ≤ 0x8f))) := by
  simp only [lead?, UInt8.lt_iff_toNat_lt, UInt8.le_iff_toNat_le, ← UInt8.toNat_inj] at h
  split_ifs at h <;> cases h <;> refine ⟨by decide, by decide, ?_⟩ <;> simp at * <;> omega

/-- A well-formed character is encoded as its bytes. -/
theorem encodePoint_foldTail {b lo hi : UInt8} {n : Nat} {tail : Text} (hask : lead? b = some (n, lo, hi))
    (hlength : tail.length = n) (hfits : tailFits lo hi tail = true) :
    encodePoint (foldTail (leadBits b n) tail) = b :: tail := by
  obtain ⟨hlo, hhi, hcases⟩ := lead?_cases hask
  cases tail with
  | nil => cases hfits
  | cons s rest =>
      obtain ⟨hlow, hhigh, hall⟩ := continues_of_tailFits hlo hhi hfits
      rcases hcases with ⟨rfl, hb⟩ | ⟨rfl, hb, hlong, hlast⟩ | ⟨rfl, hb, hlong, hlast⟩
      · obtain rfl := List.length_eq_zero_iff.1 (Nat.succ.inj hlength)
        exact encodePoint_two hb (hall s (by simp))
      · obtain ⟨t, rfl⟩ := List.length_eq_one_iff.1 (Nat.succ.inj hlength)
        exact encodePoint_three hb (hall s (by simp)) (hall t (by simp)) (fun h => (hlong h).trans hlow)
          (fun h => hhigh.trans (hlast h))
      · obtain ⟨t, u, rfl⟩ := List.length_eq_two.1 (Nat.succ.inj hlength)
        exact encodePoint_four hb (hall s (by simp)) (hall t (by simp)) (hall u (by simp))
          (fun h => (hlong h).trans hlow) (fun h => hhigh.trans (hlast h))

/-- A character at the front of a text is a stray byte, or its bytes are what it is encoded as and are read
    as the same character whatever follows. -/
theorem first_cases (b : UInt8) (rest : Text) :
    first b rest = ⟨replacement, [b]⟩ ∨
      ∃ tail, (first b rest).bytes = b :: tail ∧ encodePoint (first b rest).code = b :: tail ∧
        ∀ more, first b (tail ++ more) = first b rest := by
  by_cases hone : b < 0x80
  · right
    have hfirst (more : Text) : first b more = ⟨b.toNat, [b]⟩ := if_pos hone
    refine ⟨[], ?_⟩
    rw [hfirst]
    exact ⟨rfl, encodePoint_one (UInt8.lt_iff_toNat_lt.1 hone), hfirst⟩
  · simp only [first, if_neg hone]
    cases hask : lead? b with
    | none => exact .inl rfl
    | some ask =>
        obtain ⟨n, lo, hi⟩ := ask
        dsimp only
        by_cases hfits : ((rest.take n).length = n && tailFits lo hi (rest.take n)) = true
        · right
          obtain ⟨hlength, htail⟩ := Bool.and_eq_true_iff.1 hfits
          have hcount : (rest.take n).length = n := of_decide_eq_true hlength
          refine ⟨rest.take n, ?_⟩
          rw [if_pos hfits]
          refine ⟨rfl, encodePoint_foldTail hask hcount htail, fun more => ?_⟩
          have htake : (rest.take n ++ more).take n = rest.take n := List.take_left' hcount
          rw [htake, if_pos hfits]
        · left
          rw [if_neg hfits]

end Glyph

/-! ### Glyphs of a part of a text -/

/-- What follows a glyph does not count, as long as the bytes of the glyph are there. -/
theorem Glyph.first_of_isPrefix {b : UInt8} {rest more : Text} (h : more <+: rest)
    (hlength : (first b rest).bytes.length ≤ more.length + 1) : first b more = first b rest := by
  unfold first at hlength ⊢
  split
  · rfl
  · rename_i hwide
    rw [if_neg hwide] at hlength
    cases hask : lead? b with
    | none => rfl
    | some ask =>
        obtain ⟨n, lo, hi⟩ := ask
        simp only [hask] at hlength ⊢
        by_cases hn : n ≤ more.length
        · have htake : more.take n = rest.take n := by
            obtain ⟨tail, rfl⟩ := h
            rw [List.take_append_of_le_length hn]
          rw [htake]
        · -- then the bytes behind the lead byte are too few here, and stood for nothing there
          rw [if_neg (by simp [hn])]
          split at hlength
          · rename_i hfits
            have hcount : (rest.take n).length = n := by simpa using (Bool.and_eq_true_iff.1 hfits).1
            rw [List.length_cons, hcount] at hlength
            omega
          · rename_i hastray
            rw [if_neg hastray]

namespace Text

theorem glyphsFrom_eq (skip : Nat) (t : Text) : glyphsFrom skip t = glyphs (t.drop skip) := by
  induction t generalizing skip with
  | nil => cases skip <;> rfl
  | cons b rest ih =>
      cases skip with
      | zero => rfl
      | succ skip => exact ih skip

/-- The first glyph of a text, and those of what follows it. -/
theorem glyphs_cons_eq (b : UInt8) (rest : Text) :
    glyphs (b :: rest) =
      Glyph.first b rest :: glyphs (rest.drop ((Glyph.first b rest).bytes.length - 1)) := by
  rw [glyphs, glyphsFrom, glyphsFrom_eq]

/-- A text is the bytes of its first glyph and those of the others. -/
theorem exists_glyphs_cons (b : UInt8) (rest : Text) :
    ∃ more, b :: rest = (Glyph.first b rest).bytes ++ more ∧
      glyphs (b :: rest) = Glyph.first b rest :: glyphs more := by
  obtain ⟨more, hmore⟩ := Glyph.bytes_first_isPrefix b rest
  refine ⟨more, hmore.symm, ?_⟩
  have hpos := Glyph.first_bytes_pos b rest
  have hcons := congrArg (List.drop (Glyph.first b rest).bytes.length) hmore
  rw [List.drop_left, ← Nat.sub_add_cancel hpos, List.drop_succ_cons] at hcons
  rw [glyphs_cons_eq, hcons]

/-- Induction over a text from one glyph to the next. -/
theorem glyph_induction {motive : Text → Prop} (nil : motive [])
    (glyph : ∀ b rest more, b :: rest = (Glyph.first b rest).bytes ++ more →
      glyphs (b :: rest) = Glyph.first b rest :: glyphs more → motive more → motive (b :: rest))
    (t : Text) : motive t := by
  generalize hall : t.glyphs = all
  induction all generalizing t with
  | nil =>
      cases t with
      | nil => exact nil
      | cons b rest => cases hall
  | cons g all ih =>
      cases t with
      | nil => cases hall
      | cons b rest =>
          obtain ⟨more, hmore, hglyphs⟩ := exists_glyphs_cons b rest
          exact glyph b rest more hmore hglyphs (ih more (List.cons.inj (hglyphs.symm.trans hall)).2)

/-- Every glyph of a text is the first of what is left there. -/
theorem exists_first_of_mem_glyphs {t : Text} {g : Glyph} (h : g ∈ t.glyphs) :
    ∃ b rest, g = Glyph.first b rest := by
  generalize hall : t.glyphs = all at h
  induction all generalizing t with
  | nil => cases h
  | cons head all ih =>
      cases t with
      | nil => cases hall
      | cons b rest =>
          rw [glyphs_cons_eq] at hall
          obtain ⟨hhead, hrest⟩ := List.cons.inj hall
          rcases List.mem_cons.1 h with rfl | hmem
          · exact ⟨b, rest, hhead.symm⟩
          · exact ih hrest hmem

/-- The bytes of the last glyphs of a text have these glyphs. -/
theorem glyphs_ofGlyphs_of_suffix {gs : List Glyph} {t : Text} (h : gs <:+ t.glyphs) :
    (ofGlyphs gs).glyphs = gs := by
  generalize hall : t.glyphs = all at h
  induction all generalizing t with
  | nil =>
      rw [List.suffix_nil.1 h]
      rfl
  | cons g all ih =>
      rcases List.suffix_cons_iff.1 h with rfl | hrest
      · rw [← hall, ofGlyphs_glyphs]
      · cases t with
        | nil => cases hall
        | cons b rest =>
            rw [glyphs_cons_eq] at hall
            exact ih (List.cons.inj hall).2 hrest

/-- The bytes of the first glyphs of a text have these glyphs. -/
theorem glyphs_ofGlyphs_of_prefix {gs : List Glyph} {t : Text} (h : gs <+: t.glyphs) :
    (ofGlyphs gs).glyphs = gs := by
  induction gs generalizing t with
  | nil => rfl
  | cons g gs ih =>
      cases t with
      | nil => simp [glyphs, glyphsFrom] at h
      | cons b rest =>
          rw [glyphs_cons_eq, List.cons_prefix_cons] at h
          obtain ⟨rfl, hrest⟩ := h
          obtain ⟨more, hmore⟩ := Glyph.bytes_first_isPrefix b rest
          obtain ⟨tail, htail⟩ : ∃ tail, (Glyph.first b rest).bytes = b :: tail := by
            cases hbytes : (Glyph.first b rest).bytes with
            | nil =>
                have hpos := Glyph.first_bytes_pos b rest
                rw [hbytes] at hpos
                cases hpos
            | cons c tail =>
                rw [hbytes, List.cons_append] at hmore
                exact ⟨tail, by rw [(List.cons.inj hmore).1]⟩
          have hdrop : rest.drop ((Glyph.first b rest).bytes.length - 1) = more := by
            rw [htail, List.cons_append] at hmore
            rw [htail, ← (List.cons.inj hmore).2]
            exact List.drop_left
          rw [hdrop] at hrest
          have hcut : tail ++ ofGlyphs gs <+: rest := by
            have hgs : ofGlyphs gs <+: more := by
              obtain ⟨others, hothers⟩ := hrest
              rw [← ofGlyphs_glyphs more, ← hothers, ofGlyphs, ofGlyphs, List.flatMap_append]
              exact List.prefix_append _ _
            rw [htail, List.cons_append] at hmore
            rw [← (List.cons.inj hmore).2]
            exact (List.prefix_append_right_inj tail).2 hgs
          have hfirst : Glyph.first b (tail ++ ofGlyphs gs) = Glyph.first b rest := by
            apply Glyph.first_of_isPrefix hcut
            rw [htail, List.length_cons, List.length_append]
            omega
          have htext : ofGlyphs (Glyph.first b rest :: gs) = b :: (tail ++ ofGlyphs gs) := by
            rw [ofGlyphs, List.flatMap_cons, htail]
            rfl
          rw [htext, glyphs_cons_eq, hfirst, htail, List.length_cons, Nat.add_sub_cancel, List.drop_left,
            ih hrest]

/-! ### Characters that are encoded again -/

open Glyph (first first_cases replacement)

/-- The characters of a text are encoded as their bytes, all but stray bytes. -/
theorem encodePoint_of_mem_glyphs {t : Text} {g : Glyph} (h : g ∈ t.glyphs) :
    encodePoint g.code = g.bytes ∨ ∃ b, g = ⟨replacement, [b]⟩ := by
  obtain ⟨b, rest, rfl⟩ := exists_first_of_mem_glyphs h
  rcases first_cases b rest with hstray | ⟨tail, hbytes, hencode, -⟩
  · exact .inr ⟨b, hstray⟩
  · exact .inl (hencode.trans hbytes.symm)

/-- A character is read again from its encoding, whatever follows. -/
theorem glyphs_encodePoint_append {t : Text} {g : Glyph} (h : g ∈ t.glyphs) (more : Text) :
    (encodePoint g.code ++ more).glyphs = ⟨g.code, encodePoint g.code⟩ :: more.glyphs := by
  obtain ⟨b, rest, rfl⟩ := exists_first_of_mem_glyphs h
  rcases first_cases b rest with hstray | ⟨tail, hbytes, hencode, hagain⟩
  · have hencode : encodePoint replacement = [0xef, 0xbf, 0xbd] := by decide
    have hagain : first 0xef (0xbf :: 0xbd :: more) = ⟨replacement, [0xef, 0xbf, 0xbd]⟩ := rfl
    simp only [hstray, hencode, List.cons_append, List.nil_append, glyphs_cons_eq, hagain]
    rfl
  · have hglyph : first b rest = ⟨(first b rest).code, b :: tail⟩ := by
      rw [← hbytes]
    rw [hencode, List.cons_append, glyphs_cons_eq, hagain, hbytes, List.length_cons, Nat.add_sub_cancel,
      List.drop_left, ← hglyph]

/-- The characters of a text that are encoded one after another are read again in order. -/
theorem codes_flatMap_encodePoint {t : Text} {gs : List Glyph} (h : ∀ g ∈ gs, g ∈ t.glyphs) :
    (glyphs (gs.flatMap fun g => encodePoint g.code)).map Glyph.code = gs.map Glyph.code := by
  induction gs with
  | nil => rfl
  | cons g gs ih =>
      rw [List.forall_mem_cons] at h
      rw [List.flatMap_cons, glyphs_encodePoint_append h.1, List.map_cons, ih h.2, List.map_cons]

end Text

end VectorRisc
