/-
Module: VectorRisc.Proofs.Assembler.Acts
Layer: Proofs
Purpose: What an assembly does, in order. Once expressions, equates and macro calls are gone, a line comes
  down to acts: the labels at its front, a directive, an instruction line. The deeds of a run are its acts
  with the states they are carried out in. A run goes from deed to deed; in between only the names that
  stand for texts change, and from line to line the place in the source and the macros. A run that fails
  does so in its last deed, or before a line comes down to one. The stack that there is for macro calls
  decides only whether the process ends.
Imports: Mathlib.Tactic, VectorRisc.Assembler.Basic
Trusted boundary: none
Main exports: Assembler.Act, Assembler.Deed, Assembler.Aside, Assembler.Passes, Assembler.Course,
  Assembler.Course.ok_induction, Assembler.lineDeeds, Assembler.linesDeeds, Assembler.assembleLine_course,
  Assembler.assembleLines_course, Assembler.assembleLine_stable
Open obligations: none
-/
import Mathlib.Tactic
import VectorRisc.Assembler.Basic

namespace VectorRisc

namespace Assembler

open Relation (ReflTransGen)

/-- What a line comes down to. -/
inductive Act where
  /-- The labels at the front of a text. -/
  | labels (text : Text)
  | directive (name args : Text) (labelled : Bool)
  | instruction (line : Text)

/-- Carry out an act. -/
def Act.run : Act → State → Except Failure State
  | .labels text, s => s.declareAll (leadingLabels text).1
  | .directive name args labelled, s => s.directive name args labelled
  | .instruction line, s => s.instruction line

/-- An act, and the state it is carried out in. -/
structure Deed where
  state : State
  act : Act

/-- What the deed leads to. -/
def Deed.result (d : Deed) : Except Failure State := d.act.run d.state

/-! ### Between deeds -/

/-- A step within a line that is none of its acts: names get other texts, or macros change. -/
inductive Aside : State → State → Prop where
  | names (s : State) (equates : Equates) (args : List Text) :
      Aside s { s with equates := equates, args := args }
  | macros (s : State) (macros : List (Text × Macro)) (openMacro : Option Text) :
      Aside s { s with macros := macros, openMacro := openMacro }

/-- The state in which a line of the source is assembled. -/
def State.reading (s : State) (text : Text) : State :=
  { s with
    lineNo := s.lineNo + 1
    line := clean text
    log := s.log.push (.line (s.lineNo + 1) text) }

/-- From line to line the next one is read, too. -/
inductive Passes : State → State → Prop where
  | reads (s : State) (text : Text) : Passes s (s.reading text)
  | aside {s t : State} (h : Aside s t) : Passes s t

/-! ### Causes -/

/-- What is wrong, apart from the place where it is. -/
def Error.cause : Error → Error
  | .located _ _ e => e.cause
  | .inMacro _ _ e => e.cause
  | e => e

/-- What can be wrong before a line has come down to an act. -/
def Error.isOfLine : Error → Bool
  | .expression _ | .evaluation _ | .equateSyntax | .equateDuplicate _ | .labelInvalid _ => true
  | .macroSyntax | .macroNesting | .macroDuplicate | .macroEnd | .outsideSegment | .exhausted _ => true
  | _ => false

/-- A cause that is of the line is one whatever the error around it is. -/
theorem isOfLine_cause {e : Error} (h : e.isOfLine = true) : e.cause.isOfLine = true := by
  cases e with
  | located | inMacro => cases h
  | _ => exact h

/-- What is told of an error in a macro's body has the same cause. -/
@[simp] theorem cause_inBody (f : Failure) (name : Text) (lineNo : Nat) :
    (f.inBody name lineNo).error.cause = f.error.cause := by
  rw [Failure.inBody]
  split <;> rfl

@[simp] theorem state_inBody (f : Failure) (name : Text) (lineNo : Nat) :
    (f.inBody name lineNo).state = f.state := by
  rw [Failure.inBody]
  split <;> rfl

theorem isOfLine_of_replaceExpressions {host : Host} {equates : Equates} {line : Text} {e : Error}
    (h : replaceExpressions (evalExpression host equates) line = .error e) : e.isOfLine = true := by
  rw [replaceExpressions] at h
  generalize line.length = fuel at h
  induction fuel generalizing line with
  | zero => cases h
  | succ fuel ih =>
      rw [replaceExpressionsFrom] at h
      split at h
      · cases h
      · split at h
        · cases h
          rfl
        · split at h
          · rename_i hvalue
            cases h
            simp only [evalExpression] at hvalue
            split at hvalue
            · cases hvalue
              rfl
            · split at hvalue <;> cases hvalue
              rfl
          · exact ih h

theorem isOfLine_of_leadingLabels {text : Text} {e : Error} (h : (leadingLabels text).2 = .error e) :
    e.isOfLine = true := by
  rw [leadingLabels] at h
  generalize text.length + 1 = fuel at h
  induction fuel generalizing text with
  | zero => cases h
  | succ fuel ih =>
      rw [leadingLabelsFrom] at h
      split at h
      · rename_i hcut
        cases h
        rw [cutLabel] at hcut
        split at hcut
        · cases hcut
        · simp only at hcut
          split at hcut <;> split at hcut <;> cases hcut <;> rfl
      · cases h
      · exact ih h

theorem isOfLine_of_equate {s : State} {words : List Text} {f : Failure}
    (h : s.equate words = .error f) : f.error.isOfLine = true := by
  simp only [State.equate] at h
  split at h
  · split at h
    · cases h
      rfl
    · split at h
      · cases h
        rfl
      · cases h
  · cases h
    rfl

/-- An equate changes nothing but names. -/
theorem equate_aside {s t : State} {words : List Text} (h : s.equate words = .ok t) : Aside s t := by
  simp only [State.equate] at h
  split at h
  · split at h
    · cases h
    · split at h
      · cases h
      · cases h
        exact .names s _ s.args
  · cases h

/-! ### Runs and their deeds -/

/-- From a state, deeds lead to a result, with nothing but steps aside in between. A run that fails does
    so before it comes to the next deed or in its last one. -/
inductive Course (aside : State → State → Prop) : State → List Deed → Except Failure State → Prop where
  | ends {s t : State} (h : ReflTransGen aside s t) : Course aside s [] (.ok t)
  | fails {s : State} {f : Failure} (h : f.error.cause.isOfLine = true) : Course aside s [] (.error f)
  | does {s t : State} {d : Deed} {rest : List Deed} {result : Except Failure State}
      (h : ReflTransGen aside s d.state) (hdeed : d.result = .ok t)
      (hrest : Course aside t rest result) : Course aside s (d :: rest) result
  | breaks {s : State} {d : Deed} {f g : Failure} (h : ReflTransGen aside s d.state)
      (hdeed : d.result = .error g) (hcause : f.error.cause = g.error.cause) :
      Course aside s [d] (.error f)

namespace Course

variable {aside : State → State → Prop} {s t : State} {deeds rest : List Deed}
  {result : Except Failure State}

theorem error {f : Failure} (h : f.error.isOfLine = true) : Course aside s [] (.error f) :=
  .fails (isOfLine_cause h)

/-- A single deed. -/
theorem deed (s : State) (a : Act) : Course aside s [⟨s, a⟩] (a.run s) := by
  cases hrun : a.run s with
  | error f => exact .breaks .refl hrun rfl
  | ok t => exact .does .refl hrun (.ends .refl)

/-- A run that starts a few steps later. -/
theorem after (h : ReflTransGen aside s t) (hrun : Course aside t deeds result) :
    Course aside s deeds result := by
  cases hrun with
  | ends hends => exact .ends (h.trans hends)
  | fails hfails => exact .fails hfails
  | does hreach hdeed hrest => exact .does (h.trans hreach) hdeed hrest
  | breaks hreach hdeed hcause => exact .breaks (h.trans hreach) hdeed hcause

/-- Two runs one after the other. -/
theorem andThen (hfirst : Course aside s deeds (.ok t)) (hrest : Course aside t rest result) :
    Course aside s (deeds ++ rest) result := by
  generalize hresult : Except.ok t = first at hfirst
  induction hfirst with
  | ends h =>
      cases hresult
      exact hrest.after h
  | fails => cases hresult
  | does h hdeed _ ih => exact .does h hdeed (ih hresult)
  | breaks => cases hresult

/-- A run that fails, told in another way. -/
theorem toldAs {f g : Failure} (hrun : Course aside s deeds (.error f))
    (hcause : g.error.cause = f.error.cause) : Course aside s deeds (.error g) := by
  generalize hresult : Except.error f = told at hrun
  induction hrun with
  | ends => cases hresult
  | fails h =>
      cases hresult
      exact .fails (hcause ▸ h)
  | does h hdeed _ ih => exact .does h hdeed (ih hresult)
  | breaks h hdeed hbroken =>
      cases hresult
      exact .breaks h hdeed (hcause.trans hbroken)

theorem mono {other : State → State → Prop} (h : ∀ a b, aside a b → other a b)
    (hrun : Course aside s deeds result) : Course other s deeds result := by
  induction hrun with
  | ends hends => exact .ends (ReflTransGen.mono h _ _ hends)
  | fails hfails => exact .fails hfails
  | does hreach hdeed _ ih => exact .does (ReflTransGen.mono h _ _ hreach) hdeed ih
  | breaks hreach hdeed hcause => exact .breaks (ReflTransGen.mono h _ _ hreach) hdeed hcause

/-- The cause of a failure is one of a line, or that of one of the deeds. -/
theorem cause {f : Failure} (hrun : Course aside s deeds (.error f)) :
    f.error.cause.isOfLine = true ∨
      ∃ d ∈ deeds, ∃ g, d.result = .error g ∧ f.error.cause = g.error.cause := by
  generalize hresult : Except.error f = told at hrun
  induction hrun with
  | ends => cases hresult
  | fails h =>
      cases hresult
      exact .inl h
  | does _ _ _ ih =>
      refine (ih hresult).imp_right ?_
      rintro ⟨d, hd, hbroken⟩
      exact ⟨d, List.mem_cons_of_mem _ hd, hbroken⟩
  | breaks _ hdeed hcause =>
      cases hresult
      exact .inr ⟨_, List.mem_singleton_self _, _, hdeed, hcause⟩

/-- What holds at the end of a run that succeeds and is carried back over each deed holds of the run. -/
@[elab_as_elim]
theorem ok_induction {t : State}
    {motive : (s : State) → (deeds : List Deed) → Course aside s deeds (.ok t) → Prop}
    (ends : ∀ {s : State} (h : ReflTransGen aside s t), motive s [] (.ends h))
    (does : ∀ {s u : State} {d : Deed} {rest : List Deed} (h : ReflTransGen aside s d.state)
      (hdeed : d.result = .ok u) (hrest : Course aside u rest (.ok t)),
      motive u rest hrest → motive s (d :: rest) (.does h hdeed hrest))
    {s : State} {deeds : List Deed} (h : Course aside s deeds (.ok t)) : motive s deeds h := by
  have hall {s : State} {deeds : List Deed} {result : Except Failure State}
      (hrun : Course aside s deeds result) (hresult : result = .ok t) : motive s deeds (hresult ▸ hrun) := by
    induction hrun with
    | ends hends =>
        cases hresult
        exact ends hends
    | fails => cases hresult
    | does hreach hdeed hrest ih =>
        cases hresult
        exact does hreach hdeed hrest (ih rfl)
    | breaks => cases hresult
  exact hall h rfl

end Course

/-! ### Deeds of a line

The functions here go along with those of the assembler of the same names; `assembleOne` assembles a line
and `deedsOne` gives its deeds. -/

/-- The deeds of the lines of a macro's body. -/
def bodyDeeds (assembleOne : State → Text → Nat → Except Failure State)
    (deedsOne : State → Text → Nat → List Deed) (name : Text) :
    (lineNo : Nat) → List Text → State → List Deed
  | _, [], _ => []
  | lineNo, line :: rest, s =>
    let unique := name ++ [ascii '_'] ++ Numeral.natural 10 s.lineNo ++ [ascii '_']
    let line := Text.replaceByte (ascii '@') unique line
    deedsOne s line lineNo ++
      match assembleOne s line lineNo with
      | .error _ => []
      | .ok t => bodyDeeds assembleOne deedsOne name (lineNo + 1) rest t

/-- The deeds of a macro call. -/
def macroDeeds (assembleOne : State → Text → Nat → Except Failure State)
    (deedsOne : State → Text → Nat → List Deed) (s : State) (name : Text) (m : Macro)
    (values : List Text) : List Deed :=
  if values.length ≠ m.args.length then []
  else bodyDeeds assembleOne deedsOne name m.lineNo m.lines (s.bindArgs m.args values)

/-- The deeds of a macro call, a directive or an instruction. -/
def commandDeeds (assembleOne : State → Text → Nat → Except Failure State)
    (deedsOne : State → Text → Nat → List Deed) (s : State) (line : Text) (labelled : Bool) :
    List Deed :=
  let (word, rest) := splitCommand line
  match s.macros.lookup word with
  | some m => macroDeeds assembleOne deedsOne s word m rest.splitOperands
  | none =>
    if word.head? = some (ascii '.') then [⟨s, .directive word rest labelled⟩]
    else if !s.started then []
    else [⟨s, .instruction line⟩]

/-- The deeds of a line, with room on the stack for `depth` nested lines. -/
def lineDeeds : (depth : Nat) → State → Text → Nat → List Deed
  | 0, _, _, _ => []
  | depth + 1, s, line, lineNo =>
    if line.isEmpty then []
    else
      let s := { s with equates := s.equates.set lineEquate (Numeral.natural 10 lineNo) }
      match replaceExpressions (evalExpression s.host s.equates) line with
      | .error _ => []
      | .ok line =>
        if line.fields.head? = some (Text.ofString ".equ") then []
        else
          let text := s.substitute line
          ⟨s, .labels text⟩ ::
            match s.declareAll (leadingLabels text).1, (leadingLabels text).2 with
            | .ok s, .ok line =>
              if line.isEmpty then []
              else
                commandDeeds (assembleLine depth) (lineDeeds depth) s line
                  !(leadingLabels text).1.isEmpty
            | _, _ => []

section Lines

variable {assembleOne : State → Text → Nat → Except Failure State}
  {deedsOne : State → Text → Nat → List Deed}

theorem assembleBody_course
    (hone : ∀ s line lineNo, Course Aside s (deedsOne s line lineNo) (assembleOne s line lineNo))
    (name : Text) (lineNo : Nat) (lines : List Text) (s : State) :
    Course Aside s (bodyDeeds assembleOne deedsOne name lineNo lines s)
      (assembleBody assembleOne name lineNo lines s) := by
  induction lines generalizing lineNo s with
  | nil => exact .ends .refl
  | cons line rest ih =>
      simp only [bodyDeeds, assembleBody]
      generalize Text.replaceByte (ascii '@') _ line = line
      have hfirst := hone s line lineNo
      cases hresult : assembleOne s line lineNo with
      | error f =>
          rw [hresult] at hfirst
          rw [List.append_nil]
          exact hfirst.toldAs (cause_inBody f name lineNo)
      | ok t =>
          rw [hresult] at hfirst
          exact hfirst.andThen (ih (lineNo + 1) t)

theorem callMacro_course
    (hone : ∀ s line lineNo, Course Aside s (deedsOne s line lineNo) (assembleOne s line lineNo))
    (s : State) (name : Text) (m : Macro) (values : List Text) :
    Course Aside s (macroDeeds assembleOne deedsOne s name m values)
      (callMacro assembleOne s name m values) := by
  simp only [macroDeeds, callMacro]
  split
  · exact .error rfl
  · have hbound : Aside s (s.bindArgs m.args values) := .names s _ _
    have hbody := assembleBody_course hone name m.lineNo m.lines (s.bindArgs m.args values)
    cases hresult : assembleBody assembleOne name m.lineNo m.lines (s.bindArgs m.args values) with
    | error f =>
        rw [hresult] at hbody
        exact (hbody.after (.single hbound)).toldAs rfl
    | ok t =>
        rw [hresult] at hbody
        have hreset := (hbody.after (.single hbound)).andThen (.ends (.single (.names t s.equates s.args)))
        rwa [List.append_nil] at hreset

theorem assembleCommand_course
    (hone : ∀ s line lineNo, Course Aside s (deedsOne s line lineNo) (assembleOne s line lineNo))
    (s : State) (line : Text) (labelled : Bool) :
    Course Aside s (commandDeeds assembleOne deedsOne s line labelled)
      (assembleCommand assembleOne s line labelled) := by
  simp only [commandDeeds, assembleCommand]
  cases s.macros.lookup (splitCommand line).1 with
  | some m => exact callMacro_course hone s _ _ _
  | none =>
      simp only
      split
      · exact .deed s (.directive _ _ labelled)
      · split
        · exact .error rfl
        · exact .deed s (.instruction line)

end Lines

/-- A line is assembled along its deeds, however deep its macro calls are. -/
theorem assembleLine_course (depth : Nat) (s : State) (line : Text) (lineNo : Nat) :
    Course Aside s (lineDeeds depth s line lineNo) (assembleLine depth s line lineNo) := by
  induction depth generalizing s line lineNo with
  | zero => exact .error rfl
  | succ depth ih =>
      rw [lineDeeds, assembleLine]
      split
      · exact .ends .refl
      · have hnumbered : Aside s { s with
            equates := s.equates.set lineEquate (Numeral.natural 10 lineNo) } := .names s _ _
        refine Course.after (.single hnumbered) ?_
        generalize { s with equates := s.equates.set lineEquate (Numeral.natural 10 lineNo) } = s
        dsimp only
        cases hline : replaceExpressions (evalExpression s.host s.equates) line with
        | error e => exact Course.error (f := ⟨e, s⟩) (isOfLine_of_replaceExpressions hline)
        | ok line =>
            dsimp only
            split
            · cases hequate : s.equate line.fields with
              | error f => exact .error (isOfLine_of_equate hequate)
              | ok t => exact .ends (.single (equate_aside hequate))
            · have hlabels : Course Aside s [⟨s, .labels (s.substitute line)⟩]
                  (s.declareAll (leadingLabels (s.substitute line)).1) :=
                .deed s (.labels (s.substitute line))
              cases hdeclared : s.declareAll (leadingLabels (s.substitute line)).1 with
              | error f =>
                  rw [hdeclared] at hlabels
                  exact hlabels
              | ok t =>
                  rw [hdeclared] at hlabels
                  refine hlabels.andThen ?_
                  cases hrest : (leadingLabels (s.substitute line)).2 with
                  | error e => exact Course.error (f := ⟨e, t⟩) (isOfLine_of_leadingLabels hrest)
                  | ok line =>
                      dsimp only
                      split
                      · exact .ends .refl
                      · exact assembleCommand_course ih t line _

/-! ### Deeds of a source -/

/-- The deeds of one line of the source. A macro definition has none. -/
def sourceLineDeeds (s : State) (text : Text) : List Deed :=
  let words := (clean text).fields
  if words.head? = some (Text.ofString ".macro") then []
  else if words.head? = some (Text.ofString ".endm") then []
  else
    match (s.reading text).openMacro with
    | some _ => []
    | none => lineDeeds (s.host.stack + 1) (s.reading text) (clean text) (s.lineNo + 1)

/-- The deeds of the lines of a source. -/
def linesDeeds : List Text → State → List Deed
  | [], _ => []
  | text :: rest, s =>
    sourceLineDeeds s text ++
      match assembleSourceLine s text with
      | .error _ => []
      | .ok t => linesDeeds rest t

theorem openDefinition_course (s : State) (words : List Text) :
    Course Aside s [] (s.openDefinition words) := by
  simp only [State.openDefinition]
  split
  · exact .error rfl
  · split
    · split
      · exact .error rfl
      · split
        · exact .error rfl
        · exact .ends (.single (.macros s _ _))
    · exact .error rfl

/-- A line of the source is assembled in the state that reads it. -/
theorem assembleSourceLine_eq (s : State) (text : Text) :
    assembleSourceLine s text =
      let u := s.reading text
      let words := (clean text).fields
      if words.head? = some (Text.ofString ".macro") then u.openDefinition words
      else if words.head? = some (Text.ofString ".endm") then
        if u.openMacro.isSome then .ok { u with openMacro := none } else u.fail .macroEnd
      else
        match u.openMacro with
        | some name => .ok (u.addBodyLine name (clean text))
        | none => assembleLine (u.host.stack + 1) u (clean text) (s.lineNo + 1) := rfl

/-- A line of the source is read, and then assembled along its deeds. -/
theorem assembleSourceLine_course (s : State) (text : Text) :
    Course Aside (s.reading text) (sourceLineDeeds s text) (assembleSourceLine s text) := by
  rw [assembleSourceLine_eq, sourceLineDeeds, show s.host = (s.reading text).host from rfl]
  generalize s.reading text = u
  dsimp only
  split
  · exact openDefinition_course u _
  · split
    · split
      · exact .ends (.single (.macros u _ _))
      · exact .error rfl
    · cases u.openMacro with
      | some name => exact .ends (.single (.macros u _ _))
      | none => exact assembleLine_course (u.host.stack + 1) u (clean text) (s.lineNo + 1)

/-- The lines of a source are assembled along their deeds. -/
theorem assembleLines_course (lines : List Text) (s : State) :
    Course Passes s (linesDeeds lines s) (assembleLines lines s) := by
  induction lines generalizing s with
  | nil => exact .ends .refl
  | cons text rest ih =>
      have hline := (assembleSourceLine_course s text).mono fun _ _ => Passes.aside
      have hfirst := hline.after (.single (.reads s text))
      simp only [linesDeeds, assembleLines]
      cases hresult : assembleSourceLine s text with
      | error f =>
          rw [hresult] at hfirst
          rw [List.append_nil]
          exact hfirst
      | ok t =>
          rw [hresult] at hfirst
          exact hfirst.andThen (ih t)

/-! ### The stack -/

/-- The process has not ended. -/
def Survives (result : Except Failure State) : Prop :=
  ∀ f, result = .error f → f.error.isExhausted = false

theorem isExhausted_inBody (f : Failure) (name : Text) (lineNo : Nat) :
    (f.inBody name lineNo).error.isExhausted = f.error.isExhausted := by
  rw [Failure.inBody]
  split
  · rfl
  · rename_i htold
    exact (eq_false_of_ne_true htold).symm

section Stack

variable {one two : State → Text → Nat → Except Failure State}
  (h : ∀ s line lineNo, Survives (one s line lineNo) → two s line lineNo = one s line lineNo)

include h

theorem assembleBody_same {name : Text} {lineNo : Nat} {lines : List Text} {s : State}
    (hone : Survives (assembleBody one name lineNo lines s)) :
    assembleBody two name lineNo lines s = assembleBody one name lineNo lines s := by
  induction lines generalizing lineNo s with
  | nil => rfl
  | cons line rest ih =>
      simp only [assembleBody] at hone ⊢
      generalize Text.replaceByte (ascii '@') _ line = line at hone ⊢
      cases hline : one s line lineNo with
      | error f =>
          rw [hline] at hone
          have hsurvives : Survives (one s line lineNo) := by
            intro g hg
            obtain rfl := Except.error.inj (hline.symm.trans hg)
            rw [← isExhausted_inBody f name lineNo]
            exact hone _ rfl
          rw [h _ _ _ hsurvives, hline]
      | ok t =>
          rw [hline] at hone
          rw [h _ _ _ (by simp [Survives, hline]), hline]
          exact ih hone

theorem callMacro_same {s : State} {name : Text} {m : Macro} {values : List Text}
    (hone : Survives (callMacro one s name m values)) :
    callMacro two s name m values = callMacro one s name m values := by
  rw [callMacro] at hone
  rw [callMacro, callMacro]
  split at hone
  · rename_i hlength
    rw [if_pos hlength, if_pos hlength]
  · rename_i hlength
    rw [if_neg hlength, if_neg hlength, assembleBody_same h]
    intro f hf
    rw [hf] at hone
    have hsurvives := hone _ rfl
    exact hsurvives

theorem assembleCommand_same {s : State} {line : Text} {labelled : Bool}
    (hone : Survives (assembleCommand one s line labelled)) :
    assembleCommand two s line labelled = assembleCommand one s line labelled := by
  simp only [assembleCommand] at hone ⊢
  split at hone
  · exact callMacro_same h hone
  · rfl

end Stack

/-- With more of the stack a line comes to the same, unless the process has ended for want of it. -/
theorem assembleLine_stable {depth more : Nat} (hle : depth ≤ more) {s : State} {line : Text} {lineNo : Nat}
    (h : Survives (assembleLine depth s line lineNo)) :
    assembleLine more s line lineNo = assembleLine depth s line lineNo := by
  induction depth generalizing more s line lineNo with
  | zero => cases h _ rfl
  | succ depth ih =>
      obtain ⟨more, rfl⟩ : ∃ n, more = n + 1 := ⟨more - 1, by omega⟩
      simp only [assembleLine] at h ⊢
      -- both come to the same at once, or to the rest of the line
      split
      · rfl
      rename_i hline
      rw [if_neg hline] at h
      split
      · rfl
      rename_i hvalue
      rw [hvalue] at h
      split
      · rfl
      rename_i hequate
      simp only [hequate, if_false] at h
      split
      · rfl
      rename_i hlabels
      rw [hlabels] at h
      split
      · rfl
      rename_i hrest
      rw [hrest] at h
      split
      · rfl
      rename_i hempty
      simp only [hempty] at h
      refine assembleCommand_same (fun t part n hpart => ?_) h
      exact ih (Nat.le_of_succ_le_succ hle) hpart

end Assembler

end VectorRisc
