/-
Module: VectorRisc.Proofs.Text.Joining
Layer: Proofs
Purpose: Splitting and joining operands. Operands that are joined with commas, with any white space around
  each of them, are split again; and whatever a text is split into is what its pieces are split into when
  they are joined again, also where the text leaves quotes or parentheses open.
Imports: Mathlib.Tactic, VectorRisc.Proofs.Text.Trimming
Trusted boundary: none
Main exports: Text.glyphs_append_of_leads, Text.Blank, Text.trim_append, Text.append_trim, Text.Operand,
  Text.Joined, Text.Joined.map_trim_cutCommas, Text.splitOperands_inverts_joining
Open obligations: none
-/
import Mathlib.Tactic
import VectorRisc.Proofs.Text.Trimming

namespace VectorRisc

/-! ### Glyphs of texts that stand together -/

/-- A character does not reach into a text that starts with no continuation byte. -/
theorem Glyph.first_append {t : Text} (h : ∀ c ∈ t.head?, ¬Continues c) (b : UInt8) (rest : Text) :
    first b (rest ++ t) = first b rest := by
  unfold first
  split
  · rfl
  · cases hask : lead? b with
    | none => rfl
    | some ask =>
        obtain ⟨n, lo, hi⟩ := ask
        dsimp only
        by_cases hn : n ≤ rest.length
        · rw [List.take_append_of_le_length hn]
        · -- the character is cut short here, and is not completed there
          have hmisfit : ¬((rest ++ t).take n).length = n ∨ ¬tailFits lo hi ((rest ++ t).take n) = true := by
            cases t with
            | nil =>
                left
                rw [List.append_nil, List.length_take]
                omega
            | cons c t =>
                right
                intro hfits
                obtain ⟨hlo, hhi, -⟩ := lead?_cases hask
                have hmem : c ∈ (rest ++ c :: t).take n := by
                  rw [List.take_append, List.mem_append]
                  right
                  rw [← Nat.sub_add_cancel (show 1 ≤ n - rest.length by omega), List.take_succ_cons]
                  exact List.mem_cons_self
                generalize (rest ++ c :: t).take n = tail at hfits hmem
                cases tail with
                | nil => cases hmem
                | cons s tail => exact h c rfl ((continues_of_tailFits hlo hhi hfits).2.2 c hmem)
          rw [if_neg (by simpa using not_and_or.2 hmisfit), if_neg (by simp; omega)]

namespace Text

/-- A text that starts with no continuation byte has its glyphs behind those of any other. -/
theorem glyphs_append_of_leads {t : Text} (h : ∀ c ∈ t.head?, ¬Glyph.Continues c) (s : Text) :
    glyphs (s ++ t) = glyphs s ++ glyphs t := by
  induction s using glyph_induction with
  | nil => rfl
  | glyph b rest more hmore hglyphs ih =>
      have hfirst := Glyph.first_append h b rest
      obtain ⟨behind, hbehind, hnext⟩ := exists_glyphs_cons b (rest ++ t)
      rw [hfirst, ← List.cons_append, hmore, List.append_assoc, List.append_cancel_left_eq] at hbehind
      rw [List.cons_append, hnext, hfirst, ← hbehind, ih, hglyphs, List.cons_append]

/-! ### White space -/

/-- The text is nothing but white space. -/
def Blank (t : Text) : Prop := ∀ g ∈ t.glyphs, g.isBlank = true

instance decidableBlank (t : Text) : Decidable t.Blank := List.decidableBAll _ _

namespace Blank

variable {s : Text}

theorem of_isPrefix {gs : List Glyph} {t : Text} (hgs : gs <+: t.glyphs) (h : ∀ g ∈ gs, g.isBlank = true) :
    Blank (ofGlyphs gs) := by
  rwa [Blank, glyphs_ofGlyphs_of_prefix hgs]

theorem of_isSuffix {gs : List Glyph} {t : Text} (hgs : gs <:+ t.glyphs) (h : ∀ g ∈ gs, g.isBlank = true) :
    Blank (ofGlyphs gs) := by
  rwa [Blank, glyphs_ofGlyphs_of_suffix hgs]

/-- White space separates nothing. -/
theorem isNeutral (h : s.Blank) : ∀ b ∈ s, IsNeutral b := by
  intro b hb
  rw [← ofGlyphs_glyphs s] at hb
  obtain ⟨g, hg, hb⟩ := List.mem_flatMap.1 hb
  exact isNeutral_of_mem_glyphs hg (h g hg) b hb

theorem leads (h : s.Blank) : ∀ c ∈ s.head?, ¬Glyph.Continues c := by
  intro c hc ⟨hlow, hhigh⟩
  cases s with
  | nil => cases hc
  | cons b rest =>
      obtain rfl : b = c := Option.some.inj hc
      have hstray : Glyph.first b rest = ⟨Glyph.replacement, [b]⟩ := by
        have hwide : ¬b < 0x80 := by
          rw [UInt8.lt_iff_toNat_lt]
          exact Nat.not_lt.2 hlow
        have hlead : Glyph.lead? b = none := by
          cases hask : Glyph.lead? b with
          | none => rfl
          | some ask =>
              obtain ⟨n, lo, hi⟩ := ask
              have hcases := (Glyph.lead?_cases hask).2.2
              omega
        rw [Glyph.first, if_neg hwide, hlead]
      have hblank := h (Glyph.first b rest) (by rw [glyphs_cons_eq]; exact List.mem_cons_self)
      rw [hstray] at hblank
      exact absurd hblank (by decide : ¬Glyph.blankCode Glyph.replacement = true)

/-- White space is whole characters, whatever stands behind it. -/
theorem glyphs_append (h : s.Blank) (t : Text) : glyphs (s ++ t) = glyphs s ++ glyphs t := by
  induction s using glyph_induction with
  | nil => rfl
  | glyph b rest more hmore hglyphs ih =>
      rw [Blank, hglyphs, List.forall_mem_cons] at h
      obtain ⟨hblank, hrest⟩ := h
      have hfirst : Glyph.first b (rest ++ t) = Glyph.first b rest := by
        rcases Glyph.first_cases b rest with hstray | ⟨tail, hbytes, -, hagain⟩
        · rw [hstray] at hblank
          exact absurd hblank (by decide : ¬Glyph.blankCode Glyph.replacement = true)
        · rw [hbytes, List.cons_append] at hmore
          have hboth := hagain (more ++ t)
          rwa [← List.append_assoc, ← (List.cons.inj hmore).2] at hboth
      obtain ⟨behind, hbehind, hnext⟩ := exists_glyphs_cons b (rest ++ t)
      rw [hfirst, ← List.cons_append, hmore, List.append_assoc, List.append_cancel_left_eq] at hbehind
      rw [List.cons_append, hnext, hfirst, ← hbehind, ih hrest, hglyphs, List.cons_append]

end Blank

/-- White space in front of a text is trimmed away. -/
theorem trim_append {s : Text} (h : s.Blank) (t : Text) : trim (s ++ t) = trim t := by
  rw [trim, trim, h.glyphs_append, List.dropWhile_append_of_pos h]

/-- White space behind a text is trimmed away. -/
theorem append_trim (t : Text) {s : Text} (h : s.Blank) : trim (t ++ s) = trim t := by
  have hback : ∀ g ∈ s.glyphs.reverse, g.isBlank = true := fun g hg => h g (List.mem_reverse.1 hg)
  rw [trim_eq_rdropWhile, trim_eq_rdropWhile, glyphs_append_of_leads h.leads, List.dropWhile_append]
  split
  · rename_i hall
    rw [List.isEmpty_iff.1 hall, List.dropWhile_eq_nil_iff.2 h]
  · rw [List.rdropWhile, List.reverse_append, List.dropWhile_append_of_pos hback, ← List.rdropWhile]

/-- What trimming takes off a text is white space. -/
theorem exists_eq_append_trim (t : Text) :
    ∃ front back, Blank front ∧ Blank back ∧ t = front ++ t.trim ++ back := by
  have hfront := List.takeWhile_append_dropWhile (p := Glyph.isBlank) (l := t.glyphs)
  have hback := List.rdropWhile_append_rtakeWhile (p := Glyph.isBlank) (l := t.glyphs.dropWhile Glyph.isBlank)
  refine ⟨ofGlyphs (t.glyphs.takeWhile Glyph.isBlank),
    ofGlyphs ((t.glyphs.dropWhile Glyph.isBlank).rtakeWhile Glyph.isBlank), ?_, ?_, ?_⟩
  · exact .of_isPrefix (List.takeWhile_prefix _) fun g hg => List.mem_takeWhile_imp hg
  · exact .of_isSuffix ((List.rtakeWhile_suffix _ _).trans (List.dropWhile_suffix _))
      fun g hg => List.mem_rtakeWhile_imp hg
  · rw [trim_eq_rdropWhile]
    simp only [ofGlyphs, ← List.flatMap_append, List.append_assoc, hback, hfront]
    exact (ofGlyphs_glyphs t).symm

/-! ### Scans of pieces -/

/-- A scan of the text that starts outside quotes at depth zero cuts it nowhere, and ends there again. -/
structure Closed (t : Text) : Prop where
  uncut : Uncut .outside 0 t
  unquoted : Quote.after .outside t = .outside
  depth : depthOver .outside 0 t = 0

instance decidableUncut : (q : Quote) → (depth : Int) → (t : Text) → Decidable (Uncut q depth t)
  | _, _, [] => .isTrue trivial
  | q, depth, b :: t =>
    have := decidableUncut (q.step b) (depthAfter q depth b) t
    inferInstanceAs (Decidable (¬(q = .outside ∧ b = ascii ',' ∧ depth = 0) ∧
      Uncut (q.step b) (depthAfter q depth b) t))

/-- Bytes that mean nothing leave the scan outside quotes where it is. -/
theorem outside_of_isNeutral {s : Text} (h : ∀ b ∈ s, IsNeutral b) (depth : Int) :
    Quote.after .outside s = .outside ∧ depthOver .outside depth s = depth := by
  induction s with
  | nil => exact ⟨rfl, rfl⟩
  | cons b s ih =>
      obtain ⟨⟨-, hmark, hdepth⟩, hrest⟩ := List.forall_mem_cons.1 h
      have hstep : Quote.outside.step b = .outside := by simp [Quote.step, hmark]
      have hstay : depthAfter .outside depth b = depth := by rw [depthAfter, hdepth, add_zero]
      obtain ⟨hafter, hover⟩ := ih hrest
      constructor
      · rw [Quote.after, List.foldl_cons, hstep]
        exact hafter
      · rw [depthOver, hstep, hstay, hover]

/-- A scan that is outside quotes behind bytes that mean nothing was outside before them. -/
theorem eq_outside_of_isNeutral {s : Text} (h : ∀ b ∈ s, IsNeutral b) {q : Quote} (hq : q.Opened)
    (hend : q.after s = .outside) : q = .outside := by
  induction s generalizing q with
  | nil => exact hend
  | cons b s ih =>
      obtain ⟨⟨-, hmark, -⟩, hrest⟩ := List.forall_mem_cons.1 h
      have hnext := ih hrest (hq.step b) hend
      cases q with
      | outside => rfl
      | inside mark =>
          have hne : b ≠ mark := by
            rintro rfl
            rw [hq] at hmark
            cases hmark
          rw [Quote.step] at hnext
          split_ifs at hnext
      | escaped mark => cases hnext

namespace Uncut

variable {q : Quote} {depth : Int} {s : Text}

/-- Bytes that mean nothing are cut nowhere, in quotes or not. -/
theorem of_isNeutral (h : ∀ b ∈ s, IsNeutral b) : Uncut q depth s := by
  induction s generalizing q depth with
  | nil => trivial
  | cons b s ih =>
      obtain ⟨⟨hcomma, -⟩, hrest⟩ := List.forall_mem_cons.1 h
      exact ⟨fun hcut => hcomma hcut.2.1, ih hrest⟩

theorem append (h : Uncut q depth s) {t : Text} (ht : Uncut (q.after s) (depthOver q depth s) t) :
    Uncut q depth (s ++ t) := by
  induction s generalizing q depth with
  | nil => exact ht
  | cons b s ih => exact ⟨h.1, ih h.2 ht⟩

/-- A piece that is not cut is held as a whole. -/
theorem cutCommas_append (h : Uncut q depth s) (held t : Text) :
    cutCommas q depth held (s ++ t) = cutCommas (q.after s) (depthOver q depth s) (s.reverse ++ held) t := by
  induction s generalizing q depth held with
  | nil => rfl
  | cons b s ih =>
      rw [List.cons_append, cutCommas_cons, if_neg h.1, ih h.2, List.reverse_cons, List.append_assoc]
      rfl

end Uncut

namespace Closed

variable {s t : Text}

theorem of_isNeutral (h : ∀ b ∈ s, IsNeutral b) : Closed s :=
  have ⟨hunquoted, hdepth⟩ := outside_of_isNeutral h 0
  ⟨.of_isNeutral h, hunquoted, hdepth⟩

theorem append (hs : Closed s) (ht : Closed t) : Closed (s ++ t) where
  uncut := hs.uncut.append (by rw [hs.unquoted, hs.depth]; exact ht.uncut)
  unquoted := by rw [Quote.after_append, hs.unquoted, ht.unquoted]
  depth := by rw [depthOver_append, hs.unquoted, hs.depth, ht.depth]

theorem cutCommas_append (h : Closed s) (held t : Text) :
    cutCommas .outside 0 held (s ++ t) = cutCommas .outside 0 (s.reverse ++ held) t := by
  rw [h.uncut.cutCommas_append, h.unquoted, h.depth]

/-- What is left of a closed piece without its white space is closed. -/
theorem trim (h : Closed t) : Closed t.trim := by
  obtain ⟨front, back, hfront, hback, ht⟩ := exists_eq_append_trim t
  obtain ⟨hbefore, hzero⟩ := outside_of_isNeutral hfront.isNeutral 0
  have houtside : Quote.outside.Opened := trivial
  have hunquoted := h.unquoted
  have hdepth := h.depth
  rw [ht, Quote.after_append, Quote.after_append, hbefore] at hunquoted
  have hcore := eq_outside_of_isNeutral hback.isNeutral (houtside.after t.trim) hunquoted
  rw [ht, depthOver_append, depthOver_append, Quote.after_append, hbefore, hzero, hcore,
    (outside_of_isNeutral hback.isNeutral _).2] at hdepth
  exact ⟨h.uncut.trim, hcore, hdepth⟩

end Closed

/-! ### Lists of pieces -/

theorem cutCommas_ne_nil (q : Quote) (depth : Int) (held t : Text) : cutCommas q depth held t ≠ [] := by
  induction t generalizing q depth held with
  | nil => cases q <;> simp [cutCommas]
  | cons b t ih =>
      rw [cutCommas_cons]
      split
      · exact List.cons_ne_nil _ _
      · exact ih _ _ _

/-- A text that is one piece has been cut nowhere. -/
theorem eq_of_cutCommas_singleton {q : Quote} {depth : Int} {held t piece : Text}
    (h : cutCommas q depth held t = [piece]) : piece = held.reverse ++ t := by
  induction t generalizing q depth held with
  | nil =>
      rw [cutCommas_nil] at h
      rw [List.append_nil, (List.cons.inj h).1]
  | cons b t ih =>
      rw [cutCommas_cons] at h
      split at h
      · exact absurd (List.cons.inj h).2 (cutCommas_ne_nil _ _ _ _)
      · rw [ih h, List.reverse_cons, List.append_assoc]
        rfl

/-- Every piece but the last ends at a comma, outside quotes and at depth zero. -/
theorem closed_of_mem_dropLast {q : Quote} {depth : Int} {held t piece : Text}
    (h : piece ∈ (cutCommas q depth held t).dropLast) :
    (∃ s, piece = held.reverse ++ s ∧ Uncut q depth s ∧ q.after s = .outside ∧ depthOver q depth s = 0) ∨
      Closed piece := by
  induction t generalizing q depth held with
  | nil =>
      rw [cutCommas_nil] at h
      cases h
  | cons b t ih =>
      rw [cutCommas_cons] at h
      split at h
      · rename_i hcut
        obtain ⟨rfl, -, rfl⟩ := hcut
        rw [List.dropLast_cons_of_ne_nil (cutCommas_ne_nil _ _ _ _)] at h
        rcases List.mem_cons.1 h with rfl | hrest
        · exact .inl ⟨[], by simp, trivial, rfl, rfl⟩
        · rcases ih hrest with ⟨s, rfl, huncut, hunquoted, hdepth⟩ | hclosed
          · exact .inr ⟨huncut, hunquoted, hdepth⟩
          · exact .inr hclosed
      · rename_i hkept
        rcases ih h with ⟨s, rfl, huncut, hunquoted, hdepth⟩ | hclosed
        · exact .inl ⟨b :: s, by simp, ⟨hkept, huncut⟩, hunquoted, hdepth⟩
        · exact .inr hclosed

/-- White space in front of the pieces is trimmed off the first one. -/
theorem map_trim_cutCommas_held {s : Text} (h : s.Blank) (q : Quote) (depth : Int) (held t : Text) :
    (cutCommas q depth (held ++ s.reverse) t).map trim = (cutCommas q depth held t).map trim := by
  have hpiece (bytes : Text) : trim (bytes ++ s.reverse).reverse = trim bytes.reverse := by
    rw [List.reverse_append, List.reverse_reverse, trim_append h]
  induction t generalizing q depth held with
  | nil =>
      rw [cutCommas_nil, cutCommas_nil, List.map_singleton, List.map_singleton, hpiece]
  | cons b t ih =>
      rw [cutCommas_cons, cutCommas_cons]
      split
      · rw [List.map_cons, List.map_cons, hpiece]
      · exact ih _ _ (b :: held)

/-- White space behind the pieces is trimmed off the last one, also where quotes are open. -/
theorem map_trim_cutCommas_behind {s : Text} (h : s.Blank) (q : Quote) (depth : Int) (held t : Text) :
    (cutCommas q depth held (t ++ s)).map trim = (cutCommas q depth held t).map trim := by
  induction t generalizing q depth held with
  | nil =>
      rw [List.nil_append, (Uncut.of_isNeutral h.isNeutral).cutCommas_eq, cutCommas_nil, List.map_singleton,
        List.map_singleton, append_trim _ h]
  | cons b t ih =>
      rw [List.cons_append, cutCommas_cons, cutCommas_cons]
      split
      · rw [List.map_cons, List.map_cons, ih]
      · exact ih _ _ _

/-- A text has the pieces that it has without the white space around it. -/
theorem map_trim_cutCommas_trim (t : Text) :
    (cutCommas .outside 0 [] t.trim).map trim = (cutCommas .outside 0 [] t).map trim := by
  obtain ⟨front, back, hfront, hback, ht⟩ := exists_eq_append_trim t
  have hlead := (Closed.of_isNeutral hfront.isNeutral).cutCommas_append [] t.trim
  nth_rewrite 2 [ht]
  rw [map_trim_cutCommas_behind hback, hlead, List.append_nil, ← List.nil_append front.reverse,
    map_trim_cutCommas_held hfront]

/-! ### Joined operands -/

/-- A text that can stand between commas as an operand. -/
structure Operand (t : Text) : Prop extends Closed t where
  trimmed : t.trim = t

instance decidableOperand (t : Text) : Decidable (Operand t) :=
  decidable_of_iff
    (Uncut .outside 0 t ∧ Quote.after .outside t = .outside ∧ depthOver .outside 0 t = 0 ∧ t.trim = t)
    ⟨fun ⟨huncut, hunquoted, hdepth, htrimmed⟩ => ⟨⟨huncut, hunquoted, hdepth⟩, htrimmed⟩,
      fun h => ⟨h.uncut, h.unquoted, h.depth, h.trimmed⟩⟩

/-- The text is the operands joined with commas, with any white space around each comma. -/
inductive Joined : List Text → Text → Prop where
  | last (t : Text) : Joined [t] t
  | comma (t : Text) {before behind : Text} {ts : List Text} {s : Text} (hbefore : before.Blank)
      (hbehind : behind.Blank) (hrest : Joined ts s) :
      Joined (t :: ts) (t ++ before ++ [ascii ','] ++ behind ++ s)

/-- Operands of which only the last may leave quotes or parentheses open are found again between their
    commas. -/
theorem Joined.map_trim_cutCommas {ts : List Text} {s : Text} (h : Joined ts s)
    (htrimmed : ∀ t ∈ ts, t.trim = t) (hclosed : ∀ t ∈ ts.dropLast, Closed t)
    (hlast : ∀ t ∈ ts.getLast?, Uncut .outside 0 t) : (cutCommas .outside 0 [] s).map trim = ts := by
  induction h with
  | last t =>
      rw [(hlast t rfl).cutCommas_eq, List.map_singleton, List.reverse_nil, List.nil_append,
        htrimmed t List.mem_cons_self]
  | @comma t before behind ts s hbefore hbehind hrest ih =>
      have hne : ts ≠ [] := by
        cases hrest <;> exact List.cons_ne_nil _ _
      rw [List.dropLast_cons_of_ne_nil hne, List.forall_mem_cons] at hclosed
      obtain ⟨hfirst, hothers⟩ := hclosed
      obtain ⟨htrim, htrims⟩ := List.forall_mem_cons.1 htrimmed
      have hpiece := hfirst.append (.of_isNeutral hbefore.isNeutral)
      have hcut := (Closed.of_isNeutral hbehind.isNeutral).cutCommas_append [] s
      have hpieces := ih htrims hothers (by rwa [List.getLast?_cons_of_ne_nil hne] at hlast)
      rw [List.append_assoc, List.append_assoc, hpiece.cutCommas_append, List.singleton_append, cutCommas,
        if_pos (by simp), List.append_nil, List.reverse_reverse, List.map_cons, append_trim t hbefore, htrim,
        hcut, List.append_nil, ← List.nil_append behind.reverse, map_trim_cutCommas_held hbehind, hpieces]

/-- A joined text is blank only if it is one blank operand. -/
theorem Joined.trim_ne_nil {ts : List Text} {s : Text} (h : Joined ts s) (htrimmed : ∀ t ∈ ts, t.trim = t)
    (hne : ts ≠ [[]]) : s.trim ≠ [] := by
  cases h with
  | last =>
      rw [htrimmed s List.mem_cons_self]
      rintro rfl
      exact hne rfl
  | @comma t before behind ts s hbefore hbehind hrest =>
      intro hblank
      obtain ⟨front, back, hfront, hback, hall⟩ :=
        exists_eq_append_trim (t ++ before ++ [ascii ','] ++ behind ++ s)
      rw [hblank, List.append_nil] at hall
      have hcomma : ascii ',' ∈ front ++ back := by
        rw [← hall]
        simp
      rcases List.mem_append.1 hcomma with hmem | hmem
      · exact (hfront.isNeutral _ hmem).1 rfl
      · exact (hback.isNeutral _ hmem).1 rfl

theorem Joined.splitOperands_eq {ts : List Text} {s : Text} (h : Joined ts s) (hne : ts ≠ [[]])
    (htrimmed : ∀ t ∈ ts, t.trim = t) (hclosed : ∀ t ∈ ts.dropLast, Closed t)
    (hlast : ∀ t ∈ ts.getLast?, Uncut .outside 0 t) : s.splitOperands = ts := by
  rw [Text.splitOperands_eq, if_neg (by simpa using h.trim_ne_nil htrimmed hne), map_trim_cutCommas_trim,
    h.map_trim_cutCommas htrimmed hclosed hlast]

theorem joined_join {ts : List Text} (h : ts ≠ []) : Joined ts (join [ascii ','] ts) := by
  induction ts with
  | nil => exact absurd rfl h
  | cons t ts ih =>
      cases ts with
      | nil => exact .last t
      | cons s ts =>
          have hblank : Blank [] := by decide
          have hnext := Joined.comma t hblank hblank (ih (List.cons_ne_nil s ts))
          rwa [List.append_nil, List.append_nil] at hnext

/-- Splitting inverts joining: operands that are joined are split again, and the pieces of any text are the
    pieces of what they are joined to. -/
theorem splitOperands_inverts_joining :
    (∀ (ts : List Text) (s : Text), ts ≠ [[]] → (∀ t ∈ ts, Operand t) → Joined ts s → s.splitOperands = ts) ∧
      ∀ t : Text, (join [ascii ','] t.splitOperands).splitOperands = t.splitOperands := by
  constructor
  · intro ts s hne hoperands hjoined
    exact hjoined.splitOperands_eq hne (fun t ht => (hoperands t ht).trimmed)
      (fun t ht => (hoperands t (List.dropLast_subset ts ht)).toClosed)
      fun t ht => (hoperands t (List.mem_of_getLast? ht)).uncut
  · intro t
    rw [splitOperands_eq t]
    split
    · rfl
    · rename_i hsome
      have hne := cutCommas_ne_nil .outside 0 [] t.trim
      refine (joined_join (by simpa using hne)).splitOperands_eq ?_ ?_ ?_ ?_
      · -- a single piece is the whole text, which is not blank
        intro hone
        obtain ⟨piece, hpieces, hpiece⟩ := List.map_eq_singleton_iff.1 hone
        rw [eq_of_cutCommas_singleton hpieces, List.reverse_nil, List.nil_append, trim_trim] at hpiece
        exact hsome (by rw [hpiece]; rfl)
      · intro s hs
        obtain ⟨piece, -, rfl⟩ := List.mem_map.1 hs
        exact trim_trim piece
      · intro s hs
        rw [← List.map_dropLast] at hs
        obtain ⟨piece, hpiece, rfl⟩ := List.mem_map.1 hs
        rcases closed_of_mem_dropLast hpiece with ⟨whole, rfl, huncut, hunquoted, hdepth⟩ | hclosed
        · exact Closed.trim ⟨huncut, hunquoted, hdepth⟩
        · exact hclosed.trim
      · intro s hs
        obtain ⟨piece, hpiece, rfl⟩ := List.mem_map.1 (List.mem_of_getLast? hs)
        exact (Uncut.of_piece hpiece).trim

/-- Operands with commas in quotes and in parentheses. -/
def guardedOperands : List Text := [ofString "%t0", ofString "',\\''", ofString "(1,2)(%sp)"]

/-- The operands with a tab and an ideographic space around their commas. -/
def spacedOperands : Text :=
  ofString "%t0" ++ ofString "\t" ++ [ascii ','] ++ [] ++
    (ofString "',\\''" ++ [] ++ [ascii ','] ++ ofString "\u3000" ++ ofString "(1,2)(%sp)")

theorem splitOperands_inverts_joining_spacedOperands : guardedOperands ≠ [[]] ∧
    (∀ t ∈ guardedOperands, Operand t) ∧ Joined guardedOperands spacedOperands ∧
    spacedOperands.splitOperands = guardedOperands := by
  have hne : guardedOperands ≠ [[]] := by decide
  have hoperands : ∀ t ∈ guardedOperands, Operand t := by decide +kernel
  have hjoined : Joined guardedOperands spacedOperands :=
    .comma _ (by decide) (by decide) (.comma _ (by decide) (by decide) (.last _))
  exact ⟨hne, hoperands, hjoined, splitOperands_inverts_joining.1 _ _ hne hoperands hjoined⟩

end Text

end VectorRisc
