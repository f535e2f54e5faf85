/-
Module: VectorRisc.Proofs.Assembler.Equates
Layer: Proofs
Purpose: What a line leaves of the equates. No act touches them, and a macro call puts them back as they were
  before its arguments, whether its body is assembled to the end or fails in the middle, however deep it
  calls other macros. So a line of the source keeps the text of every name but the one that numbers lines,
  and adds a name only if it is itself an equate of a name that has no text yet.
Imports: Mathlib.Tactic, VectorRisc.Command.Host, VectorRisc.Proofs.Assembler.Names
Trusted boundary: none
Main exports: Assembler.stateOf, Assembler.State.SameTexts, Assembler.callMacro_sameTexts,
  Assembler.State.Gives, Assembler.Leaves, Assembler.assembleLine_leaves, Assembler.equates_stable,
  Assembler.assembleLines_keep
Open obligations: none
-/
import Mathlib.Tactic
import VectorRisc.Command.Host
import VectorRisc.Proofs.Assembler.Names

namespace VectorRisc

namespace Assembler

/-! ### States of one meaning -/

/-- The state that a result leaves behind: the one that is reached, or the one in which the error arose. -/
def stateOf : Except Failure State → State
  | .ok t => t
  | .error f => f.state

/-- All names stand for the same texts in both states, and it is the same ones that are arguments. -/
structure State.SameTexts (s t : State) : Prop where
  equates : t.equates = s.equates
  args : t.args = s.args
  labels : t.labels = s.labels

namespace State.SameTexts

variable {s t u : State}

theorem refl (s : State) : s.SameTexts s := ⟨rfl, rfl, rfl⟩

theorem trans (h : s.SameTexts t) (hnext : t.SameTexts u) : s.SameTexts u :=
  ⟨hnext.equates.trans h.equates, hnext.args.trans h.args, hnext.labels.trans h.labels⟩

/-- A text in which names are replaced comes out the same. -/
theorem substitute_eq (h : s.SameTexts t) (text : Text) : t.substitute text = s.substitute text := by
  have hvalue : t.valueOf? = s.valueOf? := by
    funext name
    rw [State.valueOf?, State.valueOf?, h.equates, h.args, h.labels]
  rw [State.substitute, State.substitute, hvalue]

theorem of_withNames (h : t.withNames s = t) : s.SameTexts t := by
  rw [← h]
  exact ⟨rfl, rfl, rfl⟩

end State.SameTexts

/-- Whatever an act comes to, it leaves the names alone. -/
theorem Act.sameTexts (a : Act) (s : State) : s.SameTexts (stateOf (a.run s)) := by
  cases h : a.run s with
  | ok t => exact .of_withNames (Act.names_eq h)
  | error f => exact .of_withNames (Act.names_eq_of_error h)

/-! ### Macro calls -/

section Calls

variable {assembleOne : State → Text → Nat → Except Failure State}

theorem assembleBody_labels
    (hone : ∀ s line lineNo, (stateOf (assembleOne s line lineNo)).labels = s.labels)
    (name : Text) (lineNo : Nat) (lines : List Text) (s : State) :
    (stateOf (assembleBody assembleOne name lineNo lines s)).labels = s.labels := by
  induction lines generalizing lineNo s with
  | nil => rfl
  | cons line rest ih =>
      simp only [assembleBody]
      generalize Text.replaceByte (ascii '@') _ line = line
      have hfirst := hone s line lineNo
      cases hresult : assembleOne s line lineNo with
      | error f =>
          rw [hresult] at hfirst
          simpa only [stateOf, state_inBody] using hfirst
      | ok t =>
          rw [hresult] at hfirst
          exact (ih (lineNo + 1) t).trans hfirst

/-- After a macro call every name stands for what it stood for before: the arguments are gone, and with them
    what the body has equated. -/
theorem callMacro_sameTexts
    (hone : ∀ s line lineNo, (stateOf (assembleOne s line lineNo)).labels = s.labels)
    (s : State) (name : Text) (m : Macro) (values : List Text) :
    s.SameTexts (stateOf (callMacro assembleOne s name m values)) := by
  simp only [callMacro]
  split
  · exact .refl s
  · have hlabels := assembleBody_labels hone name m.lineNo m.lines (s.bindArgs m.args values)
    cases hbody : assembleBody assembleOne name m.lineNo m.lines (s.bindArgs m.args values) with
    | ok t =>
        rw [hbody] at hlabels
        exact ⟨rfl, rfl, hlabels⟩
    | error f =>
        rw [hbody] at hlabels
        exact ⟨rfl, rfl, hlabels⟩

theorem assembleCommand_sameTexts
    (hone : ∀ s line lineNo, (stateOf (assembleOne s line lineNo)).labels = s.labels)
    (s : State) (line : Text) (labelled : Bool) :
    s.SameTexts (stateOf (assembleCommand assembleOne s line labelled)) := by
  simp only [assembleCommand]
  cases s.macros.lookup (splitCommand line).1 with
  | some m => exact callMacro_sameTexts hone s _ m _
  | none =>
      dsimp only
      split
      · exact Act.sameTexts (.directive _ _ labelled) s
      · split
        · exact .refl s
        · exact Act.sameTexts (.instruction line) s

end Calls

/-! ### Lines -/

/-- The state in which a line is assembled under its number. -/
def State.withNumber (s : State) (lineNo : Nat) : State :=
  { s with equates := s.equates.set lineEquate (Numeral.natural 10 lineNo) }

theorem get?_withNumber {name : Text} (hname : name ≠ lineEquate) (s : State) (lineNo : Nat) :
    (s.withNumber lineNo).equates.get? name = s.equates.get? name := by
  rw [State.withNumber, Equates.get?_set, if_neg hname]

/-- The line is an equate once its expressions are replaced, and gives a text to a name that has none. -/
structure State.Gives (s : State) (line name value : Text) : Prop where
  fields : ∃ plain, replaceExpressions (evalExpression s.host s.equates) line = .ok plain ∧
    plain.fields = [Text.ofString ".equ", name, value]
  label : name.isLabel = true
  vacant : s.equates.get? name = none

theorem State.Gives.fields_eq {s : State} {line name value plain : Text} (h : s.Gives line name value)
    (hplain : replaceExpressions (evalExpression s.host s.equates) line = .ok plain) :
    plain.fields = [Text.ofString ".equ", name, value] := by
  obtain ⟨found, hfound, hfields⟩ := h.fields
  obtain rfl : plain = found := Except.ok.inj (hplain.symm.trans hfound)
  exact hfields

/-- A line gives a text to one name only. -/
theorem State.Gives.unique {s : State} {line name value other another : Text} (h : s.Gives line name value)
    (hother : s.Gives line other another) : other = name ∧ another = value := by
  obtain ⟨plain, hplain, hfields⟩ := h.fields
  have hthere := hother.fields_eq hplain
  rw [hfields] at hthere
  simp only [List.cons.injEq, and_true, true_and] at hthere
  exact ⟨hthere.1.symm, hthere.2.symm⟩

/-- What a line leaves of the names, from the state in which it is assembled: what they stood for, and one
    name more if it gives a text to one. -/
inductive Leaves (s : State) (line : Text) (t : State) : Prop where
  | keeps (hnone : ∀ name value, ¬s.Gives line name value) (h : s.SameTexts t)
  | gives {name value : Text} (hgives : s.Gives line name value)
      (h : ({ s with equates := s.equates.set name (s.substitute value) } : State).SameTexts t)

theorem Leaves.args {s t : State} {line : Text} (h : Leaves s line t) : t.args = s.args := by
  cases h with
  | keeps _ h => exact h.args
  | gives _ h => exact h.args

theorem Leaves.labels {s t : State} {line : Text} (h : Leaves s line t) : t.labels = s.labels := by
  cases h with
  | keeps _ h => exact h.labels
  | gives _ h => exact h.labels

/-- An equate gives a text to its name, or fails and leaves the names alone. -/
theorem equate_leaves {s : State} {line plain : Text}
    (hplain : replaceExpressions (evalExpression s.host s.equates) line = .ok plain)
    (hequate : plain.fields.head? = some (Text.ofString ".equ")) :
    Leaves s line (stateOf (s.equate plain.fields)) := by
  have hgiven {name value : Text} (h : s.Gives line name value) :
      plain.fields = [Text.ofString ".equ", name, value] := h.fields_eq hplain
  generalize hwords : plain.fields = words at hequate hgiven
  match words with
  | [word, name, value] =>
      obtain rfl : word = Text.ofString ".equ" := Option.some.inj hequate
      have hsame {other another : Text} (h : s.Gives line other another) : name = other := by
        have hfields := hgiven h
        simp only [List.cons.injEq, and_true, true_and] at hfields
        exact hfields.1
      simp only [State.equate]
      by_cases hlabel : name.isLabel = true
      · by_cases hvacant : s.equates.get? name = none
        · apply Leaves.gives ⟨⟨plain, hplain, hwords⟩, hlabel, hvacant⟩
          simp only [hlabel, hvacant, Bool.not_true, Bool.false_eq_true, if_false, Option.isSome_none]
          exact .refl _
        · apply Leaves.keeps
          · intro other another h
            exact hvacant (hsame h ▸ h.vacant)
          · simp only [hlabel, Option.isSome_iff_ne_none.2 hvacant, Bool.not_true, Bool.false_eq_true,
              if_false, if_true]
            exact .refl s
      · apply Leaves.keeps
        · intro other another h
          exact hlabel (hsame h ▸ h.label)
        · simp only [hlabel, Bool.not_false, if_true]
          exact .refl s
  | [] | [_] | [_, _] | _ :: _ :: _ :: _ :: _ =>
      apply Leaves.keeps
      · intro name value h
        have hfields := hgiven h
        simp at hfields
      · exact .refl s

/-- A line that is assembled with calls nested one deeper than some that keep the labels of the source. -/
theorem assembleLine_succ_leaves {depth : Nat}
    (hone : ∀ s line lineNo, (stateOf (assembleLine depth s line lineNo)).labels = s.labels)
    (s : State) {line : Text} (hline : line.isEmpty = false) (lineNo : Nat) :
    Leaves (s.withNumber lineNo) line (stateOf (assembleLine (depth + 1) s line lineNo)) := by
  have hstate : { s with equates := s.equates.set lineEquate (Numeral.natural 10 lineNo) } =
      s.withNumber lineNo := rfl
  rw [assembleLine, hline, if_neg Bool.false_ne_true, hstate]
  generalize s.withNumber lineNo = s
  dsimp only
  cases hplain : replaceExpressions (evalExpression s.host s.equates) line with
  | error e =>
      refine .keeps (fun name value h => ?_) (.refl s)
      obtain ⟨plain, hfound, -⟩ := h.fields
      cases hplain.symm.trans hfound
  | ok plain =>
      dsimp only
      split
      · rename_i hequate
        exact equate_leaves hplain hequate
      · rename_i hequate
        apply Leaves.keeps
        · intro name value h
          exact hequate (by rw [h.fields_eq hplain]; rfl)
        · have hlabels := Act.sameTexts (.labels (s.substitute plain)) s
          rw [Act.run] at hlabels
          cases hdeclared : s.declareAll (leadingLabels (s.substitute plain)).1 with
          | error f =>
              rw [hdeclared] at hlabels
              exact hlabels
          | ok t =>
              rw [hdeclared] at hlabels
              cases (leadingLabels (s.substitute plain)).2 with
              | error e => exact hlabels
              | ok rest =>
                  dsimp only
                  split
                  · exact hlabels
                  · exact hlabels.trans (assembleCommand_sameTexts hone t rest _)

/-- No line changes the labels of the source, however deep its macro calls are. -/
theorem assembleLine_labels (depth : Nat) (s : State) (line : Text) (lineNo : Nat) :
    (stateOf (assembleLine depth s line lineNo)).labels = s.labels := by
  induction depth generalizing s line lineNo with
  | zero => rfl
  | succ depth ih =>
      cases hline : line.isEmpty with
      | true =>
          rw [assembleLine, hline, if_pos rfl]
          rfl
      | false => exact (assembleLine_succ_leaves ih s hline lineNo).labels

/-! ### Lines of the source -/

/-- The state in which a line of the source is assembled, under its number. -/
def State.reached (s : State) (text : Text) : State := (s.reading text).withNumber (s.lineNo + 1)

theorem get?_reached {name : Text} (hname : name ≠ lineEquate) (s : State) (text : Text) :
    (s.reached text).equates.get? name = s.equates.get? name :=
  get?_withNumber hname (s.reading text) (s.lineNo + 1)

/-- A line of the source is assembled, and belongs to no macro's definition. -/
structure State.Assembles (s : State) (text : Text) : Prop where
  outside : s.openMacro = none
  starts : (clean text).fields.head? ≠ some (Text.ofString ".macro")
  ends : (clean text).fields.head? ≠ some (Text.ofString ".endm")

/-- A line of the source is itself an equate, outside of macros, and gives a text to a name that has none. -/
structure State.Introduces (s : State) (text name value : Text) : Prop where
  assembles : s.Assembles text
  gives : (s.reached text).Gives (clean text) name value

theorem State.Introduces.vacant {s : State} {text name value : Text} (h : s.Introduces text name value)
    (hname : name ≠ lineEquate) : s.equates.get? name = none :=
  (get?_reached hname s text).symm.trans h.gives.vacant

theorem openDefinition_sameTexts (s : State) (words : List Text) :
    s.SameTexts (stateOf (s.openDefinition words)) := by
  simp only [State.openDefinition]
  split
  · exact .refl s
  · split
    · split
      · exact .refl s
      · split
        · exact .refl s
        · exact ⟨rfl, rfl, rfl⟩
    · exact .refl s

/-- A line of the source leaves the names alone if it has nothing to assemble, and otherwise what an assembled
    line leaves. -/
theorem assembleSourceLine_leaves (s : State) (text : Text) :
    (s.SameTexts (stateOf (assembleSourceLine s text)) ∧ ∀ name value, ¬s.Introduces text name value) ∨
      s.Assembles text ∧ Leaves (s.reached text) (clean text) (stateOf (assembleSourceLine s text)) := by
  have hread : s.SameTexts (s.reading text) := ⟨rfl, rfl, rfl⟩
  have hopen : (s.reading text).openMacro = s.openMacro := rfl
  rw [assembleSourceLine_eq]
  dsimp only
  split
  · rename_i hmacro
    left
    constructor
    · exact hread.trans (openDefinition_sameTexts _ _)
    · intro name value h
      exact h.assembles.starts hmacro
  · rename_i hmacro
    split
    · rename_i hend
      left
      constructor
      · split
        · exact hread.trans ⟨rfl, rfl, rfl⟩
        · exact hread
      · intro name value h
        exact h.assembles.ends hend
    · rename_i hend
      rw [hopen]
      cases hname : s.openMacro with
      | some name =>
          left
          constructor
          · exact hread.trans ⟨rfl, rfl, rfl⟩
          · intro other value h
            cases hname.symm.trans h.assembles.outside
      | none =>
          dsimp only
          cases hline : (clean text).isEmpty with
          | true =>
              have hempty : clean text = [] := List.isEmpty_iff.1 hline
              left
              constructor
              · rw [hempty]
                exact hread
              · intro name value h
                obtain ⟨plain, hplain, hfields⟩ := h.gives.fields
                rw [hempty] at hplain
                cases hplain
                cases hfields
          | false =>
              right
              constructor
              · exact ⟨hname, hmacro, hend⟩
              · exact assembleLine_succ_leaves (assembleLine_labels _) (s.reading text) hline (s.lineNo + 1)

/-- A line of the source leaves a name the text it had, unless it introduces the name. -/
theorem get?_assembleSourceLine {name : Text} (hname : name ≠ lineEquate) (s : State) (text : Text) :
    ((stateOf (assembleSourceLine s text)).equates.get? name = s.equates.get? name ∧
        ∀ value, ¬s.Introduces text name value) ∨
      ∃ value, s.Introduces text name value ∧
        (stateOf (assembleSourceLine s text)).equates.get? name =
          some ((s.reached text).substitute value) := by
  rcases assembleSourceLine_leaves s text with ⟨hsame, hnone⟩ | ⟨hassembles, hleaves⟩
  · left
    rw [hsame.equates]
    exact ⟨rfl, hnone name⟩
  · cases hleaves with
    | keeps hnone hsame =>
        left
        rw [hsame.equates, get?_reached hname]
        exact ⟨rfl, fun value h => hnone name value h.gives⟩
    | @gives other value hgives hsame =>
        rw [hsame.equates, Equates.get?_set]
        by_cases hother : name = other
        · subst hother
          right
          exact ⟨value, ⟨hassembles, hgives⟩, if_pos rfl⟩
        · left
          rw [if_neg hother, get?_reached hname]
          exact ⟨rfl, fun another h => hother (hgives.unique h.gives).1⟩

/-- A name that has a text keeps it through a line of the source. -/
theorem get?_kept {name value : Text} (hname : name ≠ lineEquate) {s : State}
    (h : s.equates.get? name = some value) (text : Text) :
    (stateOf (assembleSourceLine s text)).equates.get? name = some value := by
  rcases get?_assembleSourceLine hname s text with ⟨hsame, -⟩ | ⟨given, hintroduces, -⟩
  · exact hsame.trans h
  · cases (hintroduces.vacant hname).symm.trans h

/-- And through all lines, up to the one that fails if there is one. -/
theorem assembleLines_keep {name value : Text} (hname : name ≠ lineEquate) (lines : List Text) {s : State}
    (h : s.equates.get? name = some value) :
    (stateOf (assembleLines lines s)).equates.get? name = some value := by
  induction lines generalizing s with
  | nil => exact h
  | cons text rest ih =>
      have hfirst := get?_kept hname h text
      rw [assembleLines]
      cases hline : assembleSourceLine s text with
      | error f =>
          rw [hline] at hfirst
          exact hfirst
      | ok t =>
          rw [hline] at hfirst
          exact ih hfirst

/-- Equates are stable. A line of the source, whether it is assembled or fails, leaves every name but the one
    that numbers lines the text it had. A name that had none has one afterwards only if the line is itself
    an equate of it, and then the text of the equate; so there is one such name at most. And a macro call
    at any depth, whether its body is assembled or fails, leaves the names with the texts and arguments
    they had before it. -/
theorem equates_stable (s : State) (text : Text) :
    let t := stateOf (assembleSourceLine s text)
    (∀ name ≠ lineEquate, ∀ value, s.equates.get? name = some value → t.equates.get? name = some value) ∧
    (∀ name ≠ lineEquate, s.equates.get? name = none → ∀ found, t.equates.get? name = some found ↔
      ∃ value, s.Introduces text name value ∧ found = (s.reached text).substitute value) ∧
    (∀ name ≠ lineEquate, ∀ other ≠ lineEquate,
      s.equates.get? name = none → (t.equates.get? name).isSome →
      s.equates.get? other = none → (t.equates.get? other).isSome → name = other) ∧
    t.args = s.args ∧
    ∀ (depth : Nat) (u : State) (name : Text) (m : Macro) (values : List Text),
      let w := stateOf (callMacro (assembleLine depth) u name m values)
      w.equates = u.equates ∧ w.args = u.args ∧ ∀ part, w.substitute part = u.substitute part := by
  intro t
  have hnew : ∀ name ≠ lineEquate, s.equates.get? name = none → ∀ found, t.equates.get? name = some found →
      ∃ value, s.Introduces text name value ∧ found = (s.reached text).substitute value := by
    intro name hname hvacant found hfound
    rcases get?_assembleSourceLine hname s text with ⟨hsame, -⟩ | ⟨value, hintroduces, htext⟩
    · rw [hsame, hvacant] at hfound
      cases hfound
    · exact ⟨value, hintroduces, Option.some.inj (hfound.symm.trans htext)⟩
  refine ⟨?_, ?_, ?_, ?_, ?_⟩
  · intro name hname value hvalue
    exact get?_kept hname hvalue text
  · intro name hname hvacant found
    constructor
    · exact hnew name hname hvacant found
    · rintro ⟨value, hintroduces, rfl⟩
      rcases get?_assembleSourceLine hname s text with ⟨-, hnone⟩ | ⟨given, hgiven, htext⟩
      · exact absurd hintroduces (hnone value)
      · rw [← (hgiven.gives.unique hintroduces.gives).2] at htext
        exact htext
  · intro name hname other hother hvacant hsome hvacantOther hsomeOther
    obtain ⟨found, hfound⟩ := Option.isSome_iff_exists.1 hsome
    obtain ⟨another, hanother⟩ := Option.isSome_iff_exists.1 hsomeOther
    obtain ⟨value, hintroduces, -⟩ := hnew name hname hvacant found hfound
    obtain ⟨given, hgiven, -⟩ := hnew other hother hvacantOther another hanother
    exact (hgiven.gives.unique hintroduces.gives).1
  · rcases assembleSourceLine_leaves s text with ⟨hsame, -⟩ | ⟨-, hleaves⟩
    · exact hsame.args
    · exact hleaves.args
  · intro depth u name m values
    have hsame := callMacro_sameTexts (assembleLine_labels depth) u name m values
    exact ⟨hsame.equates, hsame.args, hsame.substitute_eq⟩

/-- Two macros with an argument of one name, which is an equate too; the outer one calls the inner one before
    it uses its own argument, and both make equates. -/
def nestedCalls : List Text :=
  [".macro inner A", ".equ C 2", ".byte A", ".endm", ".macro outer A", "inner 7", ".byte A", ".equ B 1",
    ".endm", ".equ A 3", ".data"].map Text.ofString

theorem equates_stable_nestedCalls : ∃ s, assembleLines nestedCalls (start (Command.assembler [])) = .ok s ∧
    Text.ofString "A" ≠ lineEquate ∧ s.equates.get? (Text.ofString "A") = some (Text.ofString "3") ∧
    let t := stateOf (assembleSourceLine s (Text.ofString "outer 5"))
    t.equates.get? (Text.ofString "A") = some (Text.ofString "3") ∧
    t.equates.map Prod.fst = [lineEquate, Text.ofString "A"] ∧ t.args = s.args ∧
    (t.sections.get .data).toList = [7, 5] := by
  have hname : Text.ofString "A" ≠ lineEquate := by decide
  have hfacts : ((assembleLines nestedCalls (start (Command.assembler []))).toOption.map fun s =>
      let t := stateOf (assembleSourceLine s (Text.ofString "outer 5"))
      (s.equates.get? (Text.ofString "A"), t.equates.map Prod.fst, (t.sections.get .data).toList)) =
      some (some (Text.ofString "3"), [lineEquate, Text.ofString "A"], [7, 5]) := by
    decide +kernel
  cases hrun : assembleLines nestedCalls (start (Command.assembler [])) with
  | error f =>
      rw [hrun] at hfacts
      cases hfacts
  | ok s =>
      rw [hrun] at hfacts
      simp only [Except.toOption, Option.map_some, Option.some.injEq, Prod.mk.injEq] at hfacts
      obtain ⟨hvalue, hnames, hbytes⟩ := hfacts
      obtain ⟨hkept, -, -, hargs, -⟩ := equates_stable s (Text.ofString "outer 5")
      exact ⟨s, rfl, hname, hvalue, hkept _ hname _ hvalue, hnames, hargs, hbytes⟩

end Assembler

end VectorRisc
