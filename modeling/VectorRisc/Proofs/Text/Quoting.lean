/-
Module: VectorRisc.Proofs.Text.Quoting
Layer: Proofs
Purpose: What the scans of a line take for quoted. Every place of a text stands in the quotes that a scan
  from the front finds there; what is cut off at an unquoted byte, and where a list of operands is cut, is
  decided by these quotes alone.
Imports: Mathlib.Tactic, VectorRisc.Proofs.Text.Scanning
Trusted boundary: none
Main exports: Text.quoteAt, Text.Bare, Text.CommentScan, Text.commentScan, Text.StopScan, Text.stopScan,
  Text.OperandScan, Text.operandScan
Open obligations: none
-/
import Mathlib.Tactic
import VectorRisc.Proofs.Text.Scanning

namespace VectorRisc

namespace Text

/-! ### Places -/

/-- The quotes in which a scan from the front finds a place of the text. -/
def quoteAt (t : Text) (n : Nat) : Quote := Quote.after .outside (t.take n)

/-- The byte stands at the place, outside quotes and not as a mark of them. -/
def Bare (t : Text) (n : Nat) (b : UInt8) : Prop := t[n]? = some b ∧ (t.quoteAt n).bares b = true

section Places

variable {s t : Text} {n : Nat} {b : UInt8}

theorem quoteAt_succ (h : t[n]? = some b) : t.quoteAt (n + 1) = (t.quoteAt n).step b := by
  rw [quoteAt, quoteAt, List.take_add_one, h, Option.toList_some, Quote.after_append]
  rfl

theorem drop_eq_cons (h : t[n]? = some b) : t.drop n = b :: t.drop (n + 1) := by
  obtain ⟨hn, rfl⟩ := List.getElem?_eq_some_iff.1 h
  exact List.drop_eq_getElem_cons hn

/-- A place of a text stands in the same quotes, whatever follows it. -/
theorem bare_append_iff (hn : n < s.length) (more : Text) : Bare (s ++ more) n b ↔ Bare s n b := by
  have hquote : quoteAt (s ++ more) n = s.quoteAt n := by
    rw [quoteAt, quoteAt, List.take_append_of_le_length hn.le]
  rw [Bare, Bare, List.getElem?_append_left hn, hquote]

/-- A byte is found unquoted nowhere, or at a first place. -/
theorem exists_first_bare (t : Text) (b : UInt8) :
    (∀ n, ¬Bare t n b) ∨ ∃ n, Bare t n b ∧ ∀ m < n, ¬Bare t m b := by
  classical
  by_cases h : ∃ n, Bare t n b
  · exact .inr ⟨Nat.find h, Nat.find_spec h, fun m hm => Nat.find_min h hm⟩
  · exact .inl (not_exists.1 h)

end Places

/-! ### The text before an unquoted byte -/

section Cuts

variable {stop : UInt8} {t : Text} {n : Nat}

theorem bare_of_stops {b : UInt8} (hb : t[n]? = some b)
    (h : ((t.quoteAt n).bares b && decide (b = stop)) = true) : Bare t n stop := by
  rw [Bool.and_eq_true, decide_eq_true_eq] at h
  exact ⟨h.2 ▸ hb, h.2 ▸ h.1⟩

/-- Up to an unquoted `stop` the bytes are copied, and the scan goes on in the quotes of the place. -/
theorem beforeUnquoted_at (hn : n ≤ t.length) (h : ∀ m < n, ¬Bare t m stop) :
    t.beforeUnquoted stop = t.take n ++ beforeUnquotedFrom stop (t.quoteAt n) (t.drop n) := by
  induction n with
  | zero => rfl
  | succ n ih =>
      have hb := List.getElem?_eq_getElem (Nat.lt_of_succ_le hn)
      have hkept := mt (bare_of_stops hb) (h n (Nat.lt_succ_self n))
      rw [ih (Nat.le_of_succ_le hn) fun m hm => h m (Nat.lt_succ_of_lt hm), drop_eq_cons hb,
        beforeUnquotedFrom, if_neg hkept, quoteAt_succ hb, List.take_add_one, hb, Option.toList_some,
        List.append_assoc, List.singleton_append]

/-- Up to an unquoted `stop` the bytes are held, and the scan goes on in the quotes of the place. -/
theorem cutUnquoted?_at (hn : n ≤ t.length) (h : ∀ m < n, ¬Bare t m stop) :
    t.cutUnquoted? stop = cutUnquotedFrom stop (t.quoteAt n) (t.take n).reverse (t.drop n) := by
  induction n with
  | zero => rfl
  | succ n ih =>
      have hb := List.getElem?_eq_getElem (Nat.lt_of_succ_le hn)
      have hkept := mt (bare_of_stops hb) (h n (Nat.lt_succ_self n))
      rw [ih (Nat.le_of_succ_le hn) fun m hm => h m (Nat.lt_succ_of_lt hm), drop_eq_cons hb,
        cutUnquotedFrom, if_neg hkept, quoteAt_succ hb, List.take_add_one, hb, Option.toList_some,
        List.reverse_append]
      rfl

theorem cut_at_bare (hbare : Bare t n stop) (h : ∀ m < n, ¬Bare t m stop) :
    t.beforeUnquoted stop = t.take n ∧ t.cutUnquoted? stop = some (t.take n, t.drop (n + 1)) := by
  obtain ⟨hn, -⟩ := List.getElem?_eq_some_iff.1 hbare.1
  have hcut : ((t.quoteAt n).bares stop && decide (stop = stop)) = true := by simp [hbare.2]
  rw [beforeUnquoted_at hn.le h, cutUnquoted?_at hn.le h, drop_eq_cons hbare.1, beforeUnquotedFrom,
    cutUnquotedFrom, if_pos hcut, if_pos hcut, List.append_nil, List.reverse_reverse]
  exact ⟨rfl, rfl⟩

theorem uncut_of_forall (h : ∀ m, ¬Bare t m stop) :
    t.beforeUnquoted stop = t ∧ t.cutUnquoted? stop = none := by
  have hall : ∀ m < t.length, ¬Bare t m stop := fun m _ => h m
  rw [beforeUnquoted_at (Nat.le_refl _) hall, cutUnquoted?_at (Nat.le_refl _) hall, List.drop_length,
    List.take_length, beforeUnquotedFrom, cutUnquotedFrom, List.append_nil]
  exact ⟨rfl, rfl⟩

end Cuts

/-- The scan for a comment: it goes on at every place in the quotes of the place, and what it leaves is the
    longest text from the front without an unquoted `stop`. -/
structure CommentScan (stop : UInt8) (t left : Text) : Prop where
  goesOn : ∀ n ≤ t.length, (∀ m < n, ¬Bare t m stop) →
    left = t.take n ++ beforeUnquotedFrom stop (t.quoteAt n) (t.drop n)
  front : left <+: t
  without : ∀ m, ¬Bare left m stop
  longest : ∀ s, s <+: t → (∀ m, ¬Bare s m stop) → s <+: left

theorem commentScan (stop : UInt8) (t : Text) : CommentScan stop t (t.beforeUnquoted stop) := by
  refine ⟨fun n hn h => beforeUnquoted_at hn h, beforeUnquotedFrom_isPrefix stop .outside t, ?_, ?_⟩
  · rcases exists_first_bare t stop with hnone | ⟨n, hbare, hfirst⟩
    · rw [(uncut_of_forall hnone).1]
      exact hnone
    · rw [(cut_at_bare hbare hfirst).1]
      intro m hm
      have hlt : m < (t.take n).length := (List.getElem?_eq_some_iff.1 hm.1).1
      have hmore := (bare_append_iff hlt (t.drop n)).2 hm
      rw [List.take_append_drop] at hmore
      rw [List.length_take] at hlt
      exact hfirst m (by omega) hmore
  · intro s hs hwithout
    rcases exists_first_bare t stop with hnone | ⟨n, hbare, hfirst⟩
    · rwa [(uncut_of_forall hnone).1]
    · have hle : s.length ≤ n := by
        by_contra hlong
        obtain ⟨more, rfl⟩ := hs
        exact hwithout n ((bare_append_iff (Nat.not_le.1 hlong) more).1 hbare)
      rw [(cut_at_bare hbare hfirst).1, List.prefix_take_iff]
      exact ⟨hs, hle⟩

/-- The scan for an unquoted `stop`: it goes on at every place in the quotes of the place, and cuts at the
    first unquoted `stop`, if there is one. -/
structure StopScan (stop : UInt8) (t : Text) : Prop where
  goesOn : ∀ n ≤ t.length, (∀ m < n, ¬Bare t m stop) →
    t.cutUnquoted? stop = cutUnquotedFrom stop (t.quoteAt n) (t.take n).reverse (t.drop n)
  first : ∀ before after, t.cutUnquoted? stop = some (before, after) ↔
    t = before ++ stop :: after ∧ Bare t before.length stop ∧ ∀ m < before.length, ¬Bare t m stop
  none : t.cutUnquoted? stop = none ↔ ∀ n, ¬Bare t n stop

theorem stopScan (stop : UInt8) (t : Text) : StopScan stop t := by
  refine ⟨fun n hn h => cutUnquoted?_at hn h, ?_, ?_⟩
  · intro before after
    constructor
    · intro hcut
      rcases exists_first_bare t stop with hnone | ⟨n, hbare, hfirst⟩
      · rw [(uncut_of_forall hnone).2] at hcut
        cases hcut
      · obtain ⟨hn, -⟩ := List.getElem?_eq_some_iff.1 hbare.1
        rw [(cut_at_bare hbare hfirst).2] at hcut
        cases hcut
        rw [List.length_take_of_le hn.le, ← drop_eq_cons hbare.1, List.take_append_drop]
        exact ⟨rfl, hbare, hfirst⟩
    · rintro ⟨ht, hbare, hfirst⟩
      rw [(cut_at_bare hbare hfirst).2, ht, List.take_left, ← List.drop_drop, List.drop_left]
      rfl
  · constructor
    · intro hcut
      rcases exists_first_bare t stop with hnone | ⟨n, hbare, hfirst⟩
      · exact hnone
      · rw [(cut_at_bare hbare hfirst).2] at hcut
        cases hcut
    · exact fun hnone => (uncut_of_forall hnone).2

/-! ### Operands -/

/-- An ASCII byte is a character of its own, wherever it stands. -/
theorem exists_glyphs_at {t : Text} {n : Nat} {b : UInt8} (h : t[n]? = some b) (hb : b < 0x80) :
    ∃ gs hs, t.glyphs = gs ++ byteGlyph b :: hs ∧ ofGlyphs gs = t.take n := by
  induction t using glyph_induction generalizing n with
  | nil => cases h
  | glyph c rest more hmore hglyphs ih =>
      rw [hmore] at h ⊢
      rw [← hmore, hglyphs]
      by_cases hn : n < (Glyph.first c rest).bytes.length
      · rw [List.getElem?_append_left hn] at h
        have hmem := List.mem_of_getElem? h
        by_cases hc : c < 0x80
        · rw [Glyph.first_of_ascii hc] at hmem hn ⊢
          obtain rfl : b = c := List.mem_singleton.1 hmem
          obtain rfl : n = 0 := Nat.lt_one_iff.1 hn
          exact ⟨[], glyphs more, rfl, rfl⟩
        · have hwide := (Glyph.first_wide (UInt8.not_lt.1 hc) rest).2 b hmem
          exact absurd hb (UInt8.not_lt.2 hwide)
      · rw [List.getElem?_append_right (Nat.not_lt.1 hn)] at h
        obtain ⟨gs, hs, hsplit, htake⟩ := ih h
        refine ⟨Glyph.first c rest :: gs, hs, by rw [hsplit, List.cons_append], ?_⟩
        rw [hmore, List.take_append, List.take_of_length_le (Nat.not_lt.1 hn), ← htake]
        rfl

/-- A scan of operands cuts the characters behind a place as if it had started there, in the state in which
    it comes to the place. -/
theorem cutOperands_append (q : Quote) (depth : Int) (held gs : List Glyph) :
    ∃ done last, cutOperands q depth held gs = done ++ [ofGlyphs last.reverse] ∧
      ∀ hs, cutOperands q depth held (gs ++ hs) =
        done ++ cutOperands (gs.foldl Quote.stepGlyph q) (depthOverGlyphs q depth gs) last hs := by
  induction gs generalizing q depth held with
  | nil =>
      refine ⟨[], held, ?_, fun hs => rfl⟩
      rw [cutOperands_nil, List.nil_append]
  | cons g gs ih =>
      by_cases hcut : q = .outside ∧ g.shows ',' = true ∧ depth = 0
      · obtain ⟨done, last, hfront, hall⟩ := ih .outside 0 []
        obtain ⟨rfl, hcomma, rfl⟩ := hcut
        have hcode : g.code = ','.toNat := of_decide_eq_true hcomma
        have hstep : Quote.outside.stepGlyph g = .outside := by
          simp only [Quote.stepGlyph, Glyph.shows, hcode]
          rfl
        have hstay : depthAfterGlyph .outside 0 g = 0 := by
          simp only [depthAfterGlyph, Glyph.depthStep, Glyph.shows, hcode]
          rfl
        refine ⟨ofGlyphs held.reverse :: done, last, ?_, fun hs => ?_⟩
        · rw [cutOperands_cons, if_pos ⟨rfl, hcomma, rfl⟩, hfront, List.cons_append]
        · rw [List.cons_append, cutOperands_cons, if_pos ⟨rfl, hcomma, rfl⟩, hall, List.foldl_cons, hstep,
            depthOverGlyphs, hstep, hstay, List.cons_append]
      · obtain ⟨done, last, hfront, hall⟩ := ih (q.stepGlyph g) (depthAfterGlyph q depth g) (g :: held)
        refine ⟨done, last, ?_, fun hs => ?_⟩
        · rw [cutOperands_cons, if_neg hcut, hfront]
        · rw [List.cons_append, cutOperands_cons, if_neg hcut, hall, List.foldl_cons, depthOverGlyphs]

/-- The scan for operands, over the characters of a trimmed text: it comes to every ASCII byte in the quotes
    of its place, with the pieces of the text before it cut and the last of them held; and it cuts the text
    as a scan of its bytes in these quotes does. -/
structure OperandScan (t : Text) : Prop where
  goesOn : ∀ n b, t.trim[n]? = some b → b < 0x80 → ∃ gs hs done last,
    t.trim.glyphs = gs ++ byteGlyph b :: hs ∧ ofGlyphs gs = t.trim.take n ∧
      cutOperands .outside 0 [] gs = done ++ [ofGlyphs last.reverse] ∧
      cutOperands .outside 0 [] t.trim.glyphs = done ++
        cutOperands (t.trim.quoteAt n) (depthOver .outside 0 (t.trim.take n)) last (byteGlyph b :: hs)
  bytes : t.splitOperands = if t.trim.isEmpty then [] else (cutCommas .outside 0 [] t.trim).map trim

theorem operandScan (t : Text) : OperandScan t := by
  refine ⟨?_, splitOperands_eq t⟩
  intro n b h hb
  have houtside : Quote.outside.Opened := trivial
  obtain ⟨gs, hs, hglyphs, htake⟩ := exists_glyphs_at h hb
  obtain ⟨done, last, hfront, hall⟩ := cutOperands_append .outside 0 [] gs
  have hprefix : gs <+: t.trim.glyphs := ⟨byteGlyph b :: hs, hglyphs.symm⟩
  refine ⟨gs, hs, done, last, hglyphs, htake, hfront, ?_⟩
  rw [hglyphs, hall, Quote.after_ofGlyphs houtside hprefix, depthOver_ofGlyphs houtside 0 hprefix, htake,
    quoteAt]

end Text

end VectorRisc
