/-
Module: VectorRisc.Proofs.Files.Consumption
Layer: Proofs
Purpose: What is read from the console, call after call. Bytes, tokens, lines and raw reads take one span
  each from the front of what is left, wherever the buffer ends, and what a call answers is read off its
  span alone; so the spans of all calls and what is left behind them are the input.
Imports: Mathlib.Data.List.TakeWhile, Mathlib.Tactic, VectorRisc.Proofs.Files.Input,
  VectorRisc.Proofs.Text.Glyphs
Trusted boundary: none
Main exports: Input.readGlyph_cases, Input.tokenFrom_eq, Input.Call, Input.Exchange, Input.exchange,
  Input.Exchange.Takes, Input.takes_exchange, Input.Consumed, Input.consumed_in_order
Open obligations: none
-/
import Mathlib.Data.List.TakeWhile
import Mathlib.Tactic
import VectorRisc.Proofs.Files.Input
import VectorRisc.Proofs.Text.Glyphs

namespace VectorRisc

/-! ### Characters through the buffer -/

namespace Glyph

theorem tailFits_of_append {lo hi : UInt8} {tail more : Text} (htail : tail ≠ [])
    (h : tailFits lo hi (tail ++ more) = true) : tailFits lo hi tail = true := by
  cases tail with
  | nil => exact absurd rfl htail
  | cons b rest =>
      rw [List.cons_append, tailFits, List.all_append, ← Bool.and_assoc, Bool.and_eq_true] at h
      exact h.1

theorem length_le_of_lead? {b lo hi : UInt8} {n : Nat} (h : lead? b = some (n, lo, hi)) : n ≤ 3 := by
  obtain ⟨-, -, ⟨rfl, -⟩ | ⟨rfl, -⟩ | ⟨rfl, -⟩⟩ := lead?_cases h <;> decide

end Glyph

/-- A text that is cut between two of its glyphs. -/
theorem Text.cut_of_glyphs {t rest : Text} {gs : List Glyph} (h : t.glyphs = gs ++ rest.glyphs) :
    t = ofGlyphs gs ++ rest ∧ (ofGlyphs gs).glyphs = gs := by
  constructor
  · rw [← ofGlyphs_glyphs t, h, ofGlyphs, List.flatMap_append, ← ofGlyphs, ← ofGlyphs, ofGlyphs_glyphs]
  · exact glyphs_ofGlyphs_of_prefix ⟨rest.glyphs, h.symm⟩

namespace Input

/-- No further bytes change a character that is whole. -/
theorem first_of_startsWhole {b : UInt8} {held : Text} (h : startsWhole (b :: held) = true) (stream : Text) :
    Glyph.first b held = Glyph.first b (held ++ stream) := by
  by_cases hone : b < 0x80
  · rw [Glyph.first, Glyph.first, if_pos hone, if_pos hone]
  · rw [Glyph.first, Glyph.first, if_neg hone, if_neg hone]
    cases hask : Glyph.lead? b with
    | none => rfl
    | some ask =>
        obtain ⟨n, lo, hi⟩ := ask
        simp only [startsWhole, hask, Bool.or_eq_true, decide_eq_true_eq, Bool.not_eq_true',
          Bool.or_eq_false_iff, List.isEmpty_eq_false_iff] at h
        dsimp only
        by_cases hn : n ≤ held.length
        · rw [List.take_append_of_le_length hn]
        · -- the bytes that are there already break the character off
          obtain ⟨hsome, hbroken⟩ := h.resolve_left hn
          have hmisfit : ¬ Glyph.tailFits lo hi ((held ++ stream).take n) = true := by
            intro hfits
            rw [List.take_append, List.take_of_length_le (by omega)] at hfits
            rw [Glyph.tailFits_of_append hsome hfits] at hbroken
            cases hbroken
          rw [if_neg (by simp [hn]), if_neg (by simp [hmisfit])]

theorem startsWhole_of_length {bytes : Text} (h : 4 ≤ bytes.length) : startsWhole bytes = true := by
  cases bytes with
  | nil => cases h
  | cons b held =>
      rw [startsWhole]
      cases hask : Glyph.lead? b with
      | none => rfl
      | some ask =>
          obtain ⟨n, lo, hi⟩ := ask
          have hn : n ≤ held.length := (Glyph.length_le_of_lead? hask).trans (Nat.le_of_succ_le_succ h)
          simp [hn]

/-- The input from which a character is read holds a whole one, or all that is left. -/
theorem primed_cases (i : Input) : startsWhole i.primed.held = true ∨ i.primed.stream = [] := by
  induction i using primed.induct with
  | case1 i h =>
      rw [primed, dif_pos h]
      simp only [Bool.or_eq_true, List.isEmpty_iff, decide_eq_true_eq] at h
      rcases h with (hwhole | hall) | hfull
      · exact .inl hwhole
      · exact .inr hall
      · exact .inl (startsWhole_of_length (le_trans (by decide) hfull))
  | case2 i h ih =>
      rw [primed, dif_neg h]
      exact ih

/-- The character that is read is the first of what is left, wherever the buffer ends. -/
theorem readGlyph_cases (i : Input) :
    (∃ j, i.readGlyph = (none, j) ∧ i.rest = [] ∧ j.rest = []) ∨
      ∃ g j, i.readGlyph = (some g, j) ∧ Text.glyphs i.rest = g :: Text.glyphs j.rest := by
  have hprimed := i.primed_cases
  rw [← rest_primed]
  cases hheld : i.primed.held with
  | nil =>
      have hread : i.readGlyph = (none, i.primed) := by
        simp only [readGlyph, hheld]
      have hstream : i.primed.stream = [] := hprimed.resolve_left (by simp [hheld, startsWhole])
      have hnone : i.primed.rest = [] := by simp [rest, toCome, hheld, hstream]
      exact .inl ⟨i.primed, hread, hnone, hnone⟩
  | cons b held =>
      rw [hheld] at hprimed
      have hfirst : Glyph.first b held = Glyph.first b (held ++ toCome i.primed.stream) := by
        rcases hprimed with hwhole | hall
        · exact first_of_startsWhole hwhole _
        · simp [hall, toCome]
      have hpos := Glyph.first_bytes_pos b held
      have hle := (Glyph.bytes_first_isPrefix b held).length_le
      refine .inr ⟨Glyph.first b held,
        { i.primed with held := i.primed.held.drop (Glyph.first b held).bytes.length }, ?_, ?_⟩
      · simp only [readGlyph, hheld]
      · obtain ⟨n, hn⟩ := Nat.exists_eq_succ_of_ne_zero (Nat.ne_of_gt hpos)
        rw [rest, hheld, List.cons_append, Text.glyphs_cons_eq, ← hfirst]
        rw [hn, List.length_cons] at hle
        simp only [rest, hn, List.drop_succ_cons, Nat.succ_eq_add_one, Nat.add_sub_cancel]
        rw [List.drop_append_of_le_length (Nat.le_of_succ_le_succ hle)]

theorem glyphs_of_readGlyph {i j : Input} {g : Glyph} (h : i.readGlyph = (some g, j)) :
    Text.glyphs i.rest = g :: Text.glyphs j.rest := by
  obtain ⟨k, hend, -⟩ | ⟨first, k, hread, hglyphs⟩ := i.readGlyph_cases
  · simp [h] at hend
  · obtain ⟨hfirst, rfl⟩ : g = first ∧ j = k := by simpa [h] using hread
    rw [hglyphs, hfirst]

/-! ### Tokens -/

/-- What is left where a token goes on: blanks are skipped before its first character only. -/
def onward (sofar gs : List Glyph) : List Glyph := if sofar.isEmpty then gs.dropWhile Glyph.isBlank else gs

theorem tokenFrom_none {sofar : List Glyph} {i j : Input} (h : i.readGlyph = (none, j)) :
    tokenFrom sofar i = (sofar, j) := by
  rw [tokenFrom]
  split <;> rename_i hread <;> rw [h] at hread <;> cases hread
  rfl

theorem tokenFrom_some {sofar : List Glyph} {i j : Input} {g : Glyph} (h : i.readGlyph = (some g, j)) :
    tokenFrom sofar i =
      if !g.isBlank then tokenFrom (g :: sofar) j
      else if sofar.isEmpty then tokenFrom [] j
      else (sofar, j) := by
  rw [tokenFrom]
  split <;> rename_i hread <;> rw [h] at hread <;> cases hread
  rfl

/-- The rest of a token is the characters up to a blank one, which is read too. -/
theorem tokenFrom_eq (sofar : List Glyph) (i : Input) :
    (tokenFrom sofar i).1 =
        ((onward sofar (Text.glyphs i.rest)).takeWhile fun g => !g.isBlank).reverse ++ sofar ∧
      Text.glyphs (tokenFrom sofar i).2.rest =
        ((onward sofar (Text.glyphs i.rest)).dropWhile fun g => !g.isBlank).drop 1 := by
  induction sofar, i using tokenFrom.induct with
  | case1 sofar i j hread =>
      obtain ⟨k, hend, hrest, hlast⟩ | ⟨g, k, hsome, -⟩ := i.readGlyph_cases
      · obtain rfl : j = k := by simpa [hread] using hend
        have hnone : onward sofar [] = [] := by simp [onward]
        rw [tokenFrom_none hread, hrest, hlast]
        simp [Text.glyphs, Text.glyphsFrom, hnone]
      · simp [hread] at hsome
  | case2 sofar i g j hread hshown ih =>
      have hglyphs := glyphs_of_readGlyph hread
      have hhere : onward sofar (g :: Text.glyphs j.rest) = g :: Text.glyphs j.rest := by
        rw [onward]
        split
        · exact List.dropWhile_cons_of_neg (by simpa using hshown)
        · rfl
      have hlater : onward (g :: sofar) (Text.glyphs j.rest) = Text.glyphs j.rest := rfl
      rw [hlater] at ih
      rw [tokenFrom_some hread, if_pos hshown, hglyphs, hhere, ih.1, ih.2]
      simp [hshown]
  | case3 sofar i g j hread hblank hempty ih =>
      have hglyphs := glyphs_of_readGlyph hread
      obtain rfl : sofar = [] := List.isEmpty_iff.1 hempty
      have hskip : onward [] (g :: Text.glyphs j.rest) = onward [] (Text.glyphs j.rest) :=
        List.dropWhile_cons_of_pos (by simpa using hblank)
      rw [tokenFrom_some hread, if_neg hblank, if_pos hempty, hglyphs, hskip]
      exact ih
  | case4 sofar i g j hread hblank hsome =>
      have hglyphs := glyphs_of_readGlyph hread
      have hhere : onward sofar (g :: Text.glyphs j.rest) = g :: Text.glyphs j.rest := if_neg hsome
      rw [tokenFrom_some hread, if_neg hblank, if_neg hsome, hglyphs, hhere]
      simp [hblank]

/-- A span of what is left that a token is read from: white space, the characters of the token, and the blank
    one behind it, unless the input ends there. A character is delivered as its bytes, and a stray byte as
    the replacement character. -/
structure TokenSpan (left span : Text) (answer : Option Text) (lead body behind : List Glyph) : Prop where
  glyphs : span.glyphs = lead ++ body ++ behind
  lead_blank : ∀ g ∈ lead, g.isBlank = true
  body_visible : ∀ g ∈ body, g.isBlank = false
  behind_blank : ∀ g ∈ behind, g.isBlank = true
  behind_length : behind.length ≤ 1
  behind_body : body = [] → behind = []
  ends : behind = [] → span = left
  none_iff : answer = none ↔ body = []
  token : answer.getD [] = body.flatMap fun g => Text.encodePoint g.code
  codes : (Text.glyphs (answer.getD [])).map Glyph.code = body.map Glyph.code
  exactly : ∀ g ∈ body, Text.encodePoint g.code = g.bytes ∨ ∃ b, g = ⟨Glyph.replacement, [b]⟩

/-- A token of the characters, if there are any. -/
def tokenOf (body : List Glyph) : Option Text :=
  if body = [] then none else some (body.flatMap fun g => Text.encodePoint g.code)

theorem tokenOf_eq_none_iff {body : List Glyph} : tokenOf body = none ↔ body = [] := by
  rw [tokenOf]
  split
  · rename_i hnone
    exact iff_of_true rfl hnone
  · rename_i hsome
    exact iff_of_false (by simp) hsome

theorem tokenOf_getD (body : List Glyph) :
    (tokenOf body).getD [] = body.flatMap fun g => Text.encodePoint g.code := by
  rw [tokenOf]
  split
  · rename_i hnone
    rw [hnone]
    rfl
  · rfl

theorem readToken_eq {i : Input} {body : List Glyph} (h : (tokenFrom [] i).1 = body.reverse) :
    i.readToken = (tokenOf body, (tokenFrom [] i).2) := by
  simp only [readToken, tokenOf, h, List.isEmpty_reverse, List.isEmpty_iff, List.reverse_reverse]
  split <;> rfl

/-- The characters that are shown stop at a blank one. -/
theorem isBlank_of_stop {shown stop : List Glyph} (h : shown.dropWhile (fun g => !g.isBlank) = stop) :
    ∀ g ∈ stop.take 1, g.isBlank = true := by
  cases stop with
  | nil => simp
  | cons first more =>
      have hfirst := List.head_dropWhile_not (fun g : Glyph => !g.isBlank) (l := shown) (by simp [h])
      simpa [h] using hfirst

/-- Behind the blanks at the front no blank comes first. -/
theorem isBlank_of_onward {gs more : List Glyph} {first : Glyph} (h : onward [] gs = first :: more) :
    first.isBlank = false := by
  have hskipped : gs.dropWhile Glyph.isBlank = first :: more := h
  have hfirst := List.head_dropWhile_not Glyph.isBlank (l := gs) (by simp [hskipped])
  simpa [hskipped] using hfirst

/-- Every token is read from a span. -/
theorem tokenSpan_readToken (i : Input) :
    ∃ span lead body behind, i.rest = span ++ i.readToken.2.rest ∧
      TokenSpan i.rest span i.readToken.1 lead body behind := by
  obtain ⟨htoken, hbehind⟩ := tokenFrom_eq [] i
  rw [List.append_nil] at htoken
  -- the characters that are left, cut at the first that is shown and at the next blank one
  generalize hlead : (Text.glyphs i.rest).takeWhile Glyph.isBlank = lead
  generalize honward : onward [] (Text.glyphs i.rest) = shown at htoken hbehind
  generalize hbody : (shown.takeWhile fun g => !g.isBlank) = body at htoken
  generalize hstop : (shown.dropWhile fun g => !g.isBlank) = stop at hbehind
  have hshown : shown = body ++ stop := by
    rw [← hbody, ← hstop, List.takeWhile_append_dropWhile]
  have hall : Text.glyphs i.rest = lead ++ body ++ stop.take 1 ++ Text.glyphs (tokenFrom [] i).2.rest := by
    rw [hbehind, List.append_assoc, List.take_append_drop, List.append_assoc, ← hshown, ← honward, ← hlead]
    exact (List.takeWhile_append_dropWhile).symm
  have hmem : ∀ g ∈ body, g ∈ Text.glyphs i.rest := by
    intro g hg
    rw [hall]
    simp [hg]
  obtain ⟨hrest, hglyphs⟩ := Text.cut_of_glyphs hall
  rw [readToken_eq htoken]
  refine ⟨_, lead, body, stop.take 1, hrest, ?_⟩
  constructor
  · exact hglyphs
  · intro g hg
    rw [← hlead] at hg
    exact List.mem_takeWhile_imp hg
  · intro g hg
    rw [← hbody] at hg
    simpa using List.mem_takeWhile_imp hg
  · exact isBlank_of_stop hstop
  · exact List.length_take_le 1 stop
  · intro hnone
    cases stop with
    | nil => rfl
    | cons first more =>
        -- a blank one would have been skipped with the others
        rw [hnone, List.nil_append] at hshown
        have hvisible := isBlank_of_onward (honward.trans hshown)
        rw [isBlank_of_stop hstop first (by simp)] at hvisible
        cases hvisible
  · intro hnone
    have hend : (tokenFrom [] i).2.rest = [] := by
      rw [← Text.ofGlyphs_glyphs (tokenFrom [] i).2.rest, hbehind, show stop = [] by simpa using hnone]
      rfl
    rw [hend, List.append_nil] at hrest
    exact hrest.symm
  · exact tokenOf_eq_none_iff
  · exact tokenOf_getD body
  · rw [tokenOf_getD]
    exact Text.codes_flatMap_encodePoint hmem
  · exact fun g hg => Text.encodePoint_of_mem_glyphs (hmem g hg)

/-! ### Bytes, lines and raw reads -/

theorem rest_readByte (i : Input) : i.rest = i.readByte.1.toList ++ i.readByte.2.rest := by
  rw [← rest_ready i, readByte]
  cases hheld : i.ready.held with
  | nil => simp
  | cons b held => simp [rest, hheld]

theorem readByte_eq_none_iff (i : Input) : i.readByte.1 = none ↔ i.rest = [] := by
  rcases readByte_cases i with ⟨j, hread, hrest⟩ | ⟨b, j, hread, hrest⟩
  · rw [hread, hrest]
    exact iff_of_true rfl rfl
  · rw [hread, hrest]
    exact iff_of_false (by simp) (by simp)

theorem rest_read (i : Input) (n : Nat) : i.rest = (i.read n).1 ++ (i.read n).2.rest := by
  rw [read]
  split
  · rfl
  · split
    · rename_i hpast
      have hheld : i.held = [] := by simpa using (Bool.and_eq_true_iff.1 hpast).1
      simp [rest, hheld, toCome_pull]
    · rw [← rest_ready i]
      simp [rest, ← List.append_assoc]

/-- Something is read if it is asked for and there is any. -/
theorem read_eq_nil {i : Input} {n : Nat} (h : (i.read n).1 = []) : n = 0 ∨ i.rest = [] := by
  rw [read] at h
  split at h
  · rename_i hnone
    exact .inl hnone
  · rename_i hsome
    split at h
    · rename_i hpast
      have hheld : i.held = [] := by simpa using (Bool.and_eq_true_iff.1 hpast).1
      have hstream : i.stream = [] := eq_nil_of_pull (Nat.pos_of_ne_zero hsome) h
      rw [rest, hheld, hstream]
      exact .inr rfl
    · exact (List.take_eq_nil_iff.1 h).imp id rest_eq_nil_of_ready

theorem rest_lineFrom (limit : Nat) (sofar : List UInt8) (i : Input) :
    sofar.reverse ++ i.rest = (lineFrom limit sofar i).1 ++ (lineFrom limit sofar i).2.rest := by
  induction limit generalizing sofar i with
  | zero => rfl
  | succ limit ih =>
      have hrest := rest_readByte i
      rw [lineFrom]
      rcases hread : i.readByte with ⟨answer, j⟩
      rw [hread] at hrest
      cases answer with
      | none => simp [hrest]
      | some b =>
          dsimp only
          split
          · simp [hrest]
          · rw [← ih, hrest]
            simp

theorem throughFeed_eq_nil_iff {bytes : List UInt8} : throughFeed bytes = [] ↔ bytes = [] := by
  cases bytes with
  | nil => exact iff_of_true rfl rfl
  | cons b rest =>
      rw [throughFeed]
      split <;> simp

/-- A line feed stands at the end only. -/
theorem feed_throughFeed (bytes : List UInt8) : ascii '\n' ∉ (throughFeed bytes).dropLast := by
  induction bytes with
  | nil => exact List.not_mem_nil
  | cons b rest ih =>
      rw [throughFeed]
      split
      · exact List.not_mem_nil
      · rename_i hb
        cases hrest : throughFeed rest with
        | nil => exact List.not_mem_nil
        | cons c more =>
            rw [hrest] at ih
            rw [List.dropLast_cons_cons, List.mem_cons, not_or]
            exact ⟨Ne.symm hb, ih⟩

theorem throughFeed_cases (bytes : List UInt8) :
    (throughFeed bytes).getLast? = some (ascii '\n') ∨ throughFeed bytes = bytes := by
  induction bytes with
  | nil => exact .inr rfl
  | cons b rest ih =>
      rw [throughFeed]
      split
      · rename_i hb
        exact .inl (by rw [hb]; rfl)
      · rcases ih with hlast | hall
        · left
          rw [List.getLast?_cons, hlast]
          rfl
        · right
          rw [hall]

/-- A span of what is left that a line is read from: it is the line. -/
structure LineSpan (left span : List UInt8) (limit : Nat) (answer : Option (List UInt8)) : Prop where
  line : answer.getD [] = span
  length_le : span.length ≤ limit
  feed_last : ascii '\n' ∉ span.dropLast
  ends : span.length = limit ∨ span.getLast? = some (ascii '\n') ∨ span = left
  none_iff : answer = none ↔ limit ≠ 0 ∧ left = []

theorem lineSpan_readLine (i : Input) (limit : Nat) :
    ∃ span, i.rest = span ++ (i.readLine limit).2.rest ∧ LineSpan i.rest span limit (i.readLine limit).1 := by
  have hline : (lineFrom limit [] i).1 = throughFeed (i.rest.take limit) := lineFrom_eq limit [] i
  have hanswer : (i.readLine limit).1 =
      if (throughFeed (i.rest.take limit)).isEmpty && limit ≠ 0 then none
      else some (throughFeed (i.rest.take limit)) := by
    rw [← hline]
    rfl
  refine ⟨throughFeed (i.rest.take limit), ?_, ?_⟩
  · rw [← hline]
    exact rest_lineFrom limit [] i
  · constructor
    · exact readLine_eq i limit
    · exact (length_throughFeed_le _).trans (List.length_take_le limit _)
    · exact feed_throughFeed _
    · rcases throughFeed_cases (i.rest.take limit) with hlast | hall
      · exact .inr (.inl hlast)
      · rw [hall]
        rcases Nat.le_total limit i.rest.length with hle | hle
        · exact .inl (List.length_take_of_le hle)
        · exact .inr (.inr (List.take_of_length_le hle))
    · rw [hanswer]
      by_cases hlimit : limit = 0
      · simp [hlimit]
      · simp [hlimit, throughFeed_eq_nil_iff]

/-! ### Calls -/

/-- A call that reads from the console. -/
inductive Call where
  | byte
  | token
  | line (limit : Nat)
  | raw (limit : Nat)
deriving DecidableEq, Repr, Inhabited

/-- A call with its answer. -/
inductive Exchange where
  | byte (answer : Option UInt8)
  | token (answer : Option Text)
  | line (limit : Nat) (answer : Option (List UInt8))
  | raw (limit : Nat) (bytes : List UInt8)
deriving DecidableEq, Repr, Inhabited

/-- A call is answered. -/
def exchange (i : Input) : Call → Exchange × Input
  | .byte => (.byte i.readByte.1, i.readByte.2)
  | .token => (.token i.readToken.1, i.readToken.2)
  | .line limit => (.line limit (i.readLine limit).1, (i.readLine limit).2)
  | .raw limit => (.raw limit (i.read limit).1, (i.read limit).2)

/-- The exchange takes the span from what is left. -/
def Exchange.Takes (left span : List UInt8) : Exchange → Prop
  | .byte answer => answer.toList = span ∧ (answer = none ↔ left = [])
  | .token answer => ∃ lead body behind, TokenSpan left span answer lead body behind
  | .line limit answer => LineSpan left span limit answer
  | .raw limit bytes => bytes = span ∧ span.length ≤ limit ∧ (span = [] → limit = 0 ∨ left = [])

/-- A call takes a span from the front of what is left, and leaves what follows it. -/
theorem takes_exchange (i : Input) (call : Call) :
    ∃ span, i.rest = span ++ (i.exchange call).2.rest ∧ (i.exchange call).1.Takes i.rest span := by
  cases call with
  | byte => exact ⟨_, rest_readByte i, rfl, readByte_eq_none_iff i⟩
  | token =>
      obtain ⟨span, lead, body, behind, hrest, htoken⟩ := tokenSpan_readToken i
      exact ⟨span, hrest, lead, body, behind, htoken⟩
  | line limit => exact lineSpan_readLine i limit
  | raw limit => exact ⟨_, rest_read i limit, rfl, length_read_le i limit, read_eq_nil⟩

/-- The exchanges of calls, one after another. -/
def exchanges : Input → List Call → List Exchange
  | _, [] => []
  | i, call :: rest => (i.exchange call).1 :: exchanges (i.exchange call).2 rest

/-- The input after calls. -/
def called (i : Input) (calls : List Call) : Input := calls.foldl (fun i call => (i.exchange call).2) i

/-- Exchanges take spans of what is left, each from where the one before it ended. -/
inductive Consumed :
    (left : List UInt8) → List Exchange → List (List UInt8) → (behind : List UInt8) → Prop where
  | nil {left : List UInt8} : Consumed left [] [] left
  | cons {left span middle behind : List UInt8} {exchange : Exchange} {later : List Exchange}
      {spans : List (List UInt8)} (hleft : left = span ++ middle) (htakes : exchange.Takes left span)
      (hlater : Consumed middle later spans behind) :
      Consumed left (exchange :: later) (span :: spans) behind

/-- No byte is lost, and none is taken twice. -/
theorem Consumed.flatten_eq {left behind : List UInt8} {exchanges : List Exchange} {spans : List (List UInt8)}
    (h : Consumed left exchanges spans behind) : left = spans.flatten ++ behind := by
  induction h with
  | nil => rfl
  | cons hleft _ _ ih => rw [hleft, ih, List.flatten_cons, List.append_assoc]

/-- Whatever calls read from the console, in whatever pieces the input comes and wherever the buffer ends,
    each takes a span that starts where the span before it ended, and answers what its span says. The spans
    and what is left behind them are what was left at first. -/
theorem consumed_in_order (i : Input) (calls : List Call) :
    ∃ spans, Consumed i.rest (i.exchanges calls) spans (i.called calls).rest ∧
      i.rest = spans.flatten ++ (i.called calls).rest := by
  have hconsumed : ∃ spans, Consumed i.rest (i.exchanges calls) spans (i.called calls).rest := by
    induction calls generalizing i with
    | nil => exact ⟨[], .nil⟩
    | cons call rest ih =>
        obtain ⟨span, hrest, htakes⟩ := i.takes_exchange call
        obtain ⟨spans, hlater⟩ := ih (i.exchange call).2
        exact ⟨span :: spans, .cons hrest htakes hlater⟩
  obtain ⟨spans, hspans⟩ := hconsumed
  exact ⟨spans, hspans, hspans.flatten_eq⟩

end Input

end VectorRisc
