/-
Module: VectorRisc.Proofs.Assembler.Shadowing
Layer: Proofs
Purpose: The labels of a source come before the equates it starts with. Two assemblies whose equates differ
  in the text of one name, a label of the source, go the same way line by line: every text that names are
  replaced in comes out the same, in calls too, where the name may be an argument and then has one text in
  both. Only an expression, which asks for equates alone, or another equate of the name tells them apart.
Imports: Mathlib.Tactic, VectorRisc.Command.Host, VectorRisc.Proofs.Assembler.Names,
  VectorRisc.Proofs.Assembler.Trace, VectorRisc.Proofs.Numeral.Integer, VectorRisc.Proofs.Text.Pieces
Trusted boundary: none
Main exports: Assembler.Unopened, Assembler.Alike, Assembler.Alike.substitute_eq, Assembler.SameEnd,
  Assembler.assembleLine_alike, Assembler.assembleLines_alike, Assembler.assemble_shadowed
Open obligations: none
-/
import Mathlib.Tactic
import VectorRisc.Command.Host
import VectorRisc.Proofs.Assembler.Names
import VectorRisc.Proofs.Assembler.Trace
import VectorRisc.Proofs.Numeral.Integer
import VectorRisc.Proofs.Text.Pieces

namespace VectorRisc

namespace Assembler

/-! ### Texts without expressions -/

/-- No expression starts in the text. -/
def Unopened (t : Text) : Prop := t.IsChain fun d p => ¬(d = ascii '$' ∧ p = ascii '(')

namespace Unopened

variable {t : Text}

theorem of_not_isInfix (h : ¬Text.ofString "$(" <:+: t) : Unopened t := by
  have hmark : Text.ofString "$(" = [ascii '$', ascii '('] := by decide
  refine List.isChain_iff_forall_rel_of_append_cons_cons.2 ?_
  rintro d p before after rfl ⟨rfl, rfl⟩
  exact h ⟨before, after, by simp [hmark]⟩

theorem of_notMem (h : ascii '(' ∉ t) : Unopened t := by
  refine List.isChain_iff_forall_rel_of_append_cons_cons.2 ?_
  rintro d p before after rfl ⟨-, rfl⟩
  exact h (by simp)

theorem piece {part : Text} (h : Unopened t) (hpart : part <:+: t) : Unopened part :=
  List.IsChain.infix h hpart

theorem cutOpening?_eq (h : Unopened t) (held : Text) : cutOpening? held t = none := by
  induction t generalizing held with
  | nil => rfl
  | cons d rest ih =>
      cases rest with
      | nil => rfl
      | cons p rest =>
          obtain ⟨hfirst, hrest⟩ := List.isChain_cons_cons.1 h
          rw [cutOpening?, if_neg (by simpa using hfirst)]
          exact ih hrest (d :: held)

theorem replaceExpressions_eq (h : Unopened t) (eval : Text → Except Error Text) :
    replaceExpressions eval t = .ok t := by
  rw [replaceExpressions]
  cases t.length with
  | zero => rfl
  | succ fuel => rw [replaceExpressionsFrom, h.cutOpening?_eq]

/-- A text that is put in for a byte brings no expression, if it neither starts nor ends like a part of
    one. -/
theorem replaceByte {mark : UInt8} {value : Text} (h : Unopened t) (hvalue : Unopened value)
    (hfirst : ∃ b ∈ value.head?, b ≠ ascii '(') (hlast : ∀ b ∈ value.getLast?, b ≠ ascii '$') :
    Unopened (Text.replaceByte mark value t) := by
  induction t with
  | nil => exact .nil
  | cons b rest ih =>
      rw [Text.replaceByte, List.flatMap_cons, ← Text.replaceByte]
      refine List.isChain_append.2 ⟨?_, ih (List.IsChain.tail h), ?_⟩
      · split
        · exact hvalue
        · exact .singleton b
      · rintro d hd p hp ⟨rfl, rfl⟩
        split at hd
        · exact hlast _ hd rfl
        · rename_i hmark
          obtain rfl : b = ascii '$' := by simpa using hd
          cases rest with
          | nil => cases hp
          | cons c rest =>
              rw [Text.replaceByte, List.flatMap_cons] at hp
              split at hp
              · obtain ⟨first, hfirst, hne⟩ := hfirst
                rw [Option.mem_def] at hp hfirst
                rw [List.head?_append, hfirst] at hp
                exact hne (Option.some.inj hp)
              · obtain rfl : c = ascii '(' := by simpa using hp
                exact (List.isChain_cons_cons.1 h).1 ⟨rfl, rfl⟩

end Unopened

/-- A body's line stays without expressions in a call. -/
theorem unopened_unique {line name : Text} (h : Unopened line) (hname : name.isLabel = true) (lineNo : Nat) :
    Unopened (Text.replaceByte (ascii '@')
      (name ++ [ascii '_'] ++ Numeral.natural 10 lineNo ++ [ascii '_']) line) := by
  have hbytes : ∀ b : UInt8, Text.isLabelByte b = true → b ≠ ascii '(' := by
    rintro b hb rfl
    exact absurd hb (by decide)
  have hdigits : ∀ d < 16, ascii (Nat.digitChar d) ≠ ascii '(' := by decide
  cases name with
  | nil => cases hname
  | cons first rest =>
      rw [Text.isLabel, Bool.and_eq_true, List.all_eq_true] at hname
      have hfirst : first ≠ ascii '(' := hbytes first (by simp [Text.isLabelByte, hname.1])
      refine h.replaceByte (.of_notMem fun hmem => ?_) ⟨first, rfl, hfirst⟩ fun b hb => ?_
      · simp only [List.mem_append, List.mem_cons, List.not_mem_nil, or_false] at hmem
        rcases hmem with (((hmem | hmem) | hmem) | hmem) | hmem
        · exact hfirst hmem.symm
        · exact hbytes _ (hname.2 _ hmem) rfl
        · exact absurd hmem (by decide)
        · obtain ⟨d, hd, hdigit⟩ :=
            Numeral.exists_digit_of_mem_natural (by norm_num) (by norm_num) lineNo hmem
          exact hdigits d hd hdigit.symm
        · exact absurd hmem (by decide)
      · rw [List.getLast?_concat, Option.mem_some] at hb
        rw [← hb]
        decide

/-! ### Texts of names -/

namespace Equates

/-- A name has the same text after names were set, if it had before or is one of them. -/
theorem get?_foldl_set {pairs : List (Text × Text)} {e f : Equates} {name : Text}
    (h : e.get? name = f.get? name ∨ name ∈ pairs.map Prod.fst) :
    (pairs.foldl (fun e (n, v) => e.set n v) e).get? name =
      (pairs.foldl (fun e (n, v) => e.set n v) f).get? name := by
  induction pairs generalizing e f with
  | nil => simpa using h
  | cons pair rest ih =>
      refine ih ?_
      rw [get?_set, get?_set]
      by_cases hname : name = pair.1
      · simp [hname]
      · simpa [hname] using h

end Equates

/-! ### States that a label makes alike -/

/-- The states differ in nothing but equates, and in those at most in the text of `x`, which is a label of
    the source; where `x` is an argument, its text is the same too. Macros have no expressions. -/
structure Alike (x : Text) (s t : State) : Prop where
  same : t = { s with equates := t.equates }
  label : x ∈ s.labels
  value : ∀ name, name ≠ x ∨ x ∈ s.args → t.equates.get? name = s.equates.get? name
  plain : ∀ entry ∈ s.macros, entry.1.isLabel = true ∧ ∀ line ∈ entry.2.lines, Unopened line

/-- Two results are alike: the states that are reached, or the states of one error. -/
inductive SameEnd (x : Text) : Except Failure State → Except Failure State → Prop where
  | ok {s t : State} (h : Alike x s t) : SameEnd x (.ok s) (.ok t)
  | error {e : Error} {s t : State} (h : Alike x s t) : SameEnd x (.error ⟨e, s⟩) (.error ⟨e, t⟩)

namespace Alike

variable {x : Text} {s t u : State}

theorem labels_eq (h : Alike x s t) : t.labels = s.labels := by rw [h.same]

theorem args_eq (h : Alike x s t) : t.args = s.args := by rw [h.same]

theorem macros_eq (h : Alike x s t) : t.macros = s.macros := by rw [h.same]

theorem lineNo_eq (h : Alike x s t) : t.lineNo = s.lineNo := by rw [h.same]

/-- What stands for a name is the same: a label shadows its equate, and an argument has one text. -/
theorem valueOf?_eq (h : Alike x s t) (name : Text) : t.valueOf? name = s.valueOf? name := by
  rw [State.valueOf?, State.valueOf?, h.labels_eq, h.args_eq]
  by_cases hsame : name ≠ x ∨ x ∈ s.args
  · rw [h.value name hsame]
  · obtain ⟨rfl, hargs⟩ : name = x ∧ x ∉ s.args := by simpa using hsame
    have hshadowed : (!s.labels.contains name || s.args.contains name) = false := by
      simp [h.label, hargs]
    rw [hshadowed]
    cases t.equates.get? name <;> cases s.equates.get? name <;> rfl

theorem substitute_eq (h : Alike x s t) (text : Text) : t.substitute text = s.substitute text := by
  rw [State.substitute, State.substitute, funext h.valueOf?_eq]

/-- Other equates for both. -/
theorem withEquates (h : Alike x s t) {e f : Equates}
    (hvalue : ∀ name, name ≠ x ∨ x ∈ s.args → f.get? name = e.get? name) :
    Alike x { s with equates := e } { t with equates := f } where
  same := by rw [h.same]
  label := h.label
  value := hvalue
  plain := h.plain

/-- A name gets a text in both. -/
theorem set (h : Alike x s t) (name value : Text) :
    Alike x { s with equates := s.equates.set name value } { t with equates := t.equates.set name value } := by
  refine h.withEquates fun other hother => ?_
  rw [Equates.get?_set, Equates.get?_set, h.value other hother]

theorem fail (h : Alike x s t) (e : Error) : SameEnd x (s.fail e) (t.fail e) := .error h

/-- What has the names of one state is alike with the names of the other. -/
theorem carry (h : Alike x s t) (hu : u.withNames s = u) : Alike x u (u.withNames t) where
  same := by
    rw [← hu, h.same]
    rfl
  label := by
    rw [← hu]
    exact h.label
  value name hname := by
    rw [← hu] at hname ⊢
    exact h.value name hname
  plain := by
    rw [← hu]
    exact h.plain

/-- Acts do not tell alike states apart. -/
theorem run (h : Alike x s t) (a : Act) : SameEnd x (a.run s) (a.run t) := by
  have hstate : t = s.withNames t := by
    rw [h.same]
    rfl
  rw [hstate, a.run_withNames]
  cases hrun : a.run s with
  | ok u => exact .ok (h.carry (Act.names_eq hrun))
  | error f => exact .error (h.carry (Act.names_eq_of_error hrun))

/-- An equate of another name. -/
theorem equate (h : Alike x s t) {words : List Text} (hname : ∀ word value, words ≠ [word, x, value]) :
    SameEnd x (s.equate words) (t.equate words) := by
  simp only [State.equate]
  split
  · rename_i word name value
    have hne : name ≠ x := fun heq => hname word value (by rw [heq])
    rw [h.value name (.inl hne), h.substitute_eq]
    split
    · exact h.fail _
    · split
      · exact h.fail _
      · exact .ok (h.set name _)
  · exact h.fail _

/-- Arguments have the same texts in both, `x` too if it is one of them. -/
theorem bindArgs (h : Alike x s t) {names values : List Text} (hlength : values.length = names.length) :
    Alike x (s.bindArgs names values) (t.bindArgs names values) := by
  have hnames : (names.zip values).map Prod.fst = names := List.map_fst_zip hlength.ge
  refine ⟨by rw [h.same]; rfl, h.label, fun name hname => ?_, h.plain⟩
  refine Equates.get?_foldl_set ?_
  rw [hnames]
  by_cases hmem : name ∈ names
  · exact .inr hmem
  · left
    refine h.value name ?_
    rcases hname with hne | hargs
    · exact .inl hne
    · by_cases hx : name = x
      · subst hx
        exact .inr ((List.mem_append.1 hargs).resolve_left hmem)
      · exact .inl hx

end Alike

/-! ### Lines -/

/-- No line visited gives a text to `x`. -/
def Trace.Spares (tr : Trace) (x : Text) : Prop := ∀ v ∈ tr.all, v.equated? ≠ some x

theorem Trace.spares_append {s t : Trace} {x : Text} :
    (s ++ t).Spares x ↔ s.Spares x ∧ t.Spares x := by
  simp only [Spares, (all_append s t).mem_iff, List.mem_append, or_imp, forall_and]

/-- Assembling a line does not tell alike states apart. -/
def Blind (x : Text) (assembleOne : State → Text → Nat → Except Failure State)
    (traceOne : State → Text → Nat → Trace) : Prop :=
  ∀ s t line lineNo, Alike x s t → Unopened line → (traceOne s line lineNo).Spares x →
    SameEnd x (assembleOne s line lineNo) (assembleOne t line lineNo)

section Lines

variable {x : Text} {assembleOne : State → Text → Nat → Except Failure State}
  {traceOne : State → Text → Nat → Trace}

theorem sameEnd_inBody {f g : Failure} (h : SameEnd x (.error f) (.error g)) (name : Text) (lineNo : Nat) :
    SameEnd x (.error (f.inBody name lineNo)) (.error (g.inBody name lineNo)) := by
  cases h with
  | error hend =>
      simp only [Failure.inBody]
      split
      · exact .error hend
      · rw [hend.same]
        exact .error (hend.same ▸ hend)

theorem assembleBody_alike (hone : Blind x assembleOne traceOne) {name : Text} (hname : name.isLabel = true)
    {lines : List Text} (hlines : ∀ line ∈ lines, Unopened line) {s t : State} (h : Alike x s t)
    {lineNo : Nat} (hspared : (bodyTrace assembleOne traceOne name lineNo lines s).Spares x) :
    SameEnd x (assembleBody assembleOne name lineNo lines s)
      (assembleBody assembleOne name lineNo lines t) := by
  induction lines generalizing lineNo s t with
  | nil => exact .ok h
  | cons line rest ih =>
      obtain ⟨hline, hrest⟩ := List.forall_mem_cons.1 hlines
      rw [bodyTrace, Trace.spares_append] at hspared
      have hfirst := hone s t _ lineNo h (unopened_unique hline hname s.lineNo) hspared.1
      rw [assembleBody, assembleBody, h.lineNo_eq]
      generalize Text.replaceByte (ascii '@') _ line = line at hspared hfirst ⊢
      generalize assembleOne s line lineNo = first, assembleOne t line lineNo = second at hspared hfirst ⊢
      cases hfirst with
      | ok hnext => exact ih hrest hnext hspared.2
      | error hend => exact sameEnd_inBody (.error hend) name lineNo

theorem callMacro_alike (hone : Blind x assembleOne traceOne) {name : Text} (hname : name.isLabel = true)
    {m : Macro} (hlines : ∀ line ∈ m.lines, Unopened line) {s t : State} (h : Alike x s t)
    {values : List Text} (hspared : (macroTrace assembleOne traceOne s name m values).Spares x) :
    SameEnd x (callMacro assembleOne s name m values) (callMacro assembleOne t name m values) := by
  simp only [callMacro]
  by_cases hlength : values.length = m.args.length
  · rw [macroTrace, if_neg (by simpa using hlength)] at hspared
    rw [if_neg (by simpa using hlength), if_neg (by simpa using hlength)]
    have hbody := assembleBody_alike hone hname hlines (h.bindArgs hlength) hspared
    generalize assembleBody assembleOne name m.lineNo m.lines (s.bindArgs m.args values) = first,
      assembleBody assembleOne name m.lineNo m.lines (t.bindArgs m.args values) = second at hbody ⊢
    -- the names that the call has set are gone again, and with them what the states had in common there
    have hback {u w : State} (hend : Alike x u w) : Alike x { u with equates := s.equates, args := s.args }
        { w with equates := t.equates, args := t.args } :=
      ⟨by rw [hend.same, h.args_eq], hend.label, h.value, hend.plain⟩
    cases hbody with
    | ok hend => exact .ok (hback hend)
    | error hend => exact .error (hback hend)
  · rw [if_pos hlength, if_pos hlength]
    exact h.fail _

theorem assembleCommand_alike (hone : Blind x assembleOne traceOne) {s t : State} (h : Alike x s t)
    {line : Text} (labelled : Bool) (hspared : (commandTrace assembleOne traceOne s line).Spares x) :
    SameEnd x (assembleCommand assembleOne s line labelled) (assembleCommand assembleOne t line labelled) := by
  simp only [assembleCommand, commandTrace, h.macros_eq] at hspared ⊢
  cases hfound : s.macros.lookup (splitCommand line).1 with
  | some m =>
      simp only [hfound] at hspared
      obtain ⟨before, after, hmacros, -⟩ := List.lookup_eq_some_iff.1 hfound
      obtain ⟨hname, hlines⟩ := h.plain ((splitCommand line).1, m) (by simp [hmacros])
      exact callMacro_alike hone hname hlines h hspared
  | none =>
      have hstarted : t.started = s.started := by rw [h.same]
      dsimp only
      rw [hstarted]
      split
      · exact h.run (.directive _ _ labelled)
      · split
        · exact h.fail _
        · exact h.run (.instruction line)

end Lines

/-- A line goes the same way in states that a label makes alike, however deep its macro calls are. -/
theorem assembleLine_alike (x : Text) (depth : Nat) : Blind x (assembleLine depth) (lineTrace depth) := by
  induction depth with
  | zero => exact fun s t line lineNo h _ _ => h.fail _
  | succ depth ih =>
      intro s t line lineNo h hline hspared
      rw [assembleLine, assembleLine]
      rw [lineTrace] at hspared
      split
      · exact .ok h
      · rename_i hempty
        rw [if_neg hempty] at hspared
        replace h := h.set lineEquate (Numeral.natural 10 lineNo)
        generalize { s with equates := s.equates.set lineEquate (Numeral.natural 10 lineNo) } = s,
          { t with equates := t.equates.set lineEquate (Numeral.natural 10 lineNo) } = t at h hspared ⊢
        simp only [hline.replaceExpressions_eq] at hspared ⊢
        rw [Trace.spares_append] at hspared
        split
        · rename_i hequate
          refine h.equate fun word value hwords => ?_
          refine hspared.1 ⟨s, line⟩ (by simp [Trace.all]) ?_
          rw [hwords, List.head?_cons, Option.some.injEq] at hequate
          simp [Visit.equated?, hwords, hequate]
        · rename_i hequate
          rw [if_neg hequate] at hspared
          rw [h.substitute_eq]
          have hlabels := h.run (.labels (s.substitute line))
          simp only [Act.run] at hlabels
          generalize leadingLabels (s.substitute line) = found at hspared hlabels ⊢
          generalize s.declareAll found.1 = first, t.declareAll found.1 = second at hspared hlabels ⊢
          cases hlabels with
          | error hend => exact .error hend
          | ok hnext =>
              dsimp only at hspared ⊢
              split
              · exact hnext.fail _
              · rename_i rest hrest
                simp only [hrest] at hspared
                split
                · exact .ok hnext
                · rename_i hmore
                  rw [if_neg hmore] at hspared
                  exact assembleCommand_alike ih hnext _ hspared.2

/-! ### Sources -/

namespace Alike

variable {x : Text} {s t : State}

theorem exists_eq (h : Alike x s t) : ∃ equates, t = { s with equates := equates } := ⟨_, h.same⟩

theorem reading (h : Alike x s t) (text : Text) : Alike x (s.reading text) (t.reading text) := by
  obtain ⟨equates, rfl⟩ := h.exists_eq
  exact ⟨rfl, h.label, h.value, h.plain⟩

theorem closeDefinition (h : Alike x s t) :
    Alike x { s with openMacro := none } { t with openMacro := none } := by
  obtain ⟨equates, rfl⟩ := h.exists_eq
  exact ⟨rfl, h.label, h.value, h.plain⟩

theorem openDefinition (h : Alike x s t) (words : List Text) :
    SameEnd x (s.openDefinition words) (t.openDefinition words) := by
  obtain ⟨equates, rfl⟩ := h.exists_eq
  simp only [State.openDefinition]
  split
  · exact h.fail _
  · split
    · split
      · exact h.fail _
      · rename_i hlabel
        split
        · exact h.fail _
        · refine .ok ⟨rfl, h.label, h.value, fun entry hentry => ?_⟩
          rcases List.mem_append.1 hentry with hold | hnew
          · exact h.plain entry hold
          · rw [List.mem_singleton.1 hnew]
            exact ⟨by simpa using hlabel, by simp⟩
    · exact h.fail _

theorem addBodyLine (h : Alike x s t) {line : Text} (hline : Unopened line) (name : Text) :
    Alike x (s.addBodyLine name line) (t.addBodyLine name line) := by
  obtain ⟨equates, rfl⟩ := h.exists_eq
  refine ⟨rfl, h.label, h.value, fun entry hentry => ?_⟩
  obtain ⟨⟨n, m⟩, hm, rfl⟩ := List.mem_map.1 hentry
  obtain ⟨hlabel, hlines⟩ := h.plain _ hm
  dsimp only
  split
  · refine ⟨hlabel, fun other hother => ?_⟩
    rcases List.mem_append.1 hother with hold | hnew
    · exact hlines other hold
    · rwa [List.mem_singleton.1 hnew]
  · exact ⟨hlabel, hlines⟩

end Alike

theorem assembleSourceLine_alike {x : Text} {s t : State} (h : Alike x s t) {text : Text}
    (htext : Unopened (clean text)) (hspared : (sourceLineTrace s text).Spares x) :
    SameEnd x (assembleSourceLine s text) (assembleSourceLine t text) := by
  have hreads := h.reading text
  have hopen : (t.reading text).openMacro = (s.reading text).openMacro := by rw [hreads.same]
  have hhost : (t.reading text).host = (s.reading text).host := by rw [hreads.same]
  have hstack : s.host = (s.reading text).host := rfl
  rw [assembleSourceLine_eq, assembleSourceLine_eq]
  rw [sourceLineTrace, hstack] at hspared
  simp only [hopen, h.lineNo_eq] at hspared ⊢
  split
  · exact hreads.openDefinition _
  · rename_i hmacro
    rw [if_neg hmacro] at hspared
    split
    · split
      · exact .ok hreads.closeDefinition
      · exact hreads.fail _
    · rename_i hend
      rw [if_neg hend] at hspared
      generalize s.reading text = u, t.reading text = w at hreads hspared hhost ⊢
      cases hname : u.openMacro with
      | some name => exact .ok (hreads.addBodyLine htext name)
      | none =>
          simp only [hname] at hspared
          rw [hhost]
          exact assembleLine_alike x (u.host.stack + 1) u w (clean text) _ hreads htext hspared

/-- A source goes the same way from states that one of its labels makes alike. -/
theorem assembleLines_alike {x : Text} {lines : List Text} (hlines : ∀ text ∈ lines, Unopened (clean text))
    {s t : State} (h : Alike x s t) (hspared : (linesTrace lines s).Spares x) :
    SameEnd x (assembleLines lines s) (assembleLines lines t) := by
  induction lines generalizing s t with
  | nil => exact .ok h
  | cons text rest ih =>
      obtain ⟨htext, hrest⟩ := List.forall_mem_cons.1 hlines
      rw [linesTrace, Trace.spares_append] at hspared
      have hfirst := assembleSourceLine_alike h htext hspared.1
      rw [assembleLines, assembleLines]
      generalize assembleSourceLine s text = first, assembleSourceLine t text = second at hspared hfirst ⊢
      cases hfirst with
      | ok hnext => exact ih hrest hnext hspared.2
      | error hend => exact .error hend

/-- The end of a source does not look at equates. -/
theorem finish_withEquates (s : State) (equates : Equates) :
    ({ s with equates := equates } : State).finish =
      ({ s.finish.1 with equates := equates }, s.finish.2) := by
  have hbound : (if s.started then ({ s with equates := equates } : State).bindLabels
      else { s with equates := equates }) =
      { (if s.started then s.bindLabels else s) with equates := equates } := by
    split <;> rfl
  simp only [State.finish, hbound]
  generalize (if s.started then s.bindLabels else s) = u
  rfl

/-- The labels of a source shadow what is predefined. If two sets of equates differ only in the text of a
    label of the source, and the source has no expressions and gives the label no text of its own, both
    lead to the same object or to the same error. -/
theorem assemble_shadowed {a : Assembler} {other : Equates} {source x : Text}
    (hsame : ∀ name ≠ x, ({ a with predefined := other } : Assembler).start.equates.get? name =
      a.start.equates.get? name)
    (hlabel : x ∈ labelsOf source.lines) (hplain : ¬Text.ofString "$(" <:+: source)
    (hspared : ∀ v ∈ (a.trace source).all, v.equated? ≠ some x) :
    (assemble { a with predefined := other } source).2 = (assemble a source).2 := by
  have hstart : Alike x (a.startOf source) (startOf { a with predefined := other } source) := by
    refine ⟨rfl, hlabel, fun name hname => ?_, by simp [startOf, start]⟩
    exact hsame name (hname.resolve_right (by simp [startOf, start]))
  have hlines : ∀ text ∈ source.lines, Unopened (clean text) := fun text htext =>
    (Unopened.of_not_isInfix hplain).piece
      ((clean_isInfix text).trans (Text.isInfix_of_mem_lines htext))
  rw [assemble, assemble]
  rw [trace] at hspared
  split
  · rfl
  · rename_i hshort
    rw [if_neg hshort] at hspared
    have hends := assembleLines_alike hlines hstart hspared
    rw [startOf, startOf] at hends
    dsimp only
    generalize assembleLines source.lines { a.start with labels := labelsOf source.lines } = first at hends ⊢
    generalize assembleLines source.lines { start { a with predefined := other } with
      labels := labelsOf source.lines } = second at hends ⊢
    cases hends with
    | error hend =>
        obtain ⟨equates, rfl⟩ := hend.exists_eq
        rfl
    | @ok s t hend =>
        obtain ⟨equates, rfl⟩ := hend.exists_eq
        have hsize : ({ s with equates := equates } : State).oversized = s.oversized := rfl
        dsimp only
        rw [hsize, finish_withEquates]
        split
        · rfl
        · split
          · rfl
          · rfl

/-- A source that jumps ahead to a label, which is the argument of a macro too. -/
def skippingSource : Text :=
  Text.ofString (".macro step SKIP\naddi %t0, %t0, SKIP\n.endm\n.text\nj SKIP\nstep 4\nSKIP: nop\n")

theorem assemble_shadowed_skippingSource : ∃ file,
    (assemble (Command.assembler []) skippingSource).2 = .ok file ∧
    (assemble (Command.assembler [(Text.ofString "SKIP", Text.ofString "11")]) skippingSource).2 =
      .ok file := by
  have hsame : ∀ name ≠ Text.ofString "SKIP",
      (start (Command.assembler [(Text.ofString "SKIP", Text.ofString "11")])).equates.get? name =
        (start (Command.assembler [])).equates.get? name := by
    intro name hname
    simp [start, Command.assembler, Equates.get?_set, hname]
  have hspared : ∀ v ∈ (trace (Command.assembler []) skippingSource).all,
      v.equated? ≠ some (Text.ofString "SKIP") := by
    decide +kernel
  have hshadowed := assemble_shadowed hsame (by decide +kernel) (by decide +kernel) hspared
  have hok : (assemble (Command.assembler []) skippingSource).2.isOk = true := by decide +kernel
  cases h : (assemble (Command.assembler []) skippingSource).2 with
  | error e =>
      rw [h] at hok
      cases hok
  | ok file => exact ⟨file, rfl, hshadowed.trans h⟩

end Assembler

end VectorRisc
