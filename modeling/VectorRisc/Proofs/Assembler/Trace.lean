/-
Module: VectorRisc.Proofs.Assembler.Trace
Layer: Proofs
Purpose: The lines that an assembly comes to, and the macro calls that bring them. A line of the source is
  visited once, a line of a macro's body in every call. The labels that a run declares in its deeds are
  those of the lines it visits, sorted by the calls that they belong to.
Imports: Mathlib.Tactic, VectorRisc.Proofs.Assembler.Acts
Trusted boundary: none
Main exports: Assembler.Visit, Assembler.Call, Assembler.Trace, Assembler.lineTrace, Assembler.linesTrace,
  Assembler.trace, Assembler.Deed.fronts, Assembler.linesDeeds_fronts
Open obligations: none
-/
import Mathlib.Tactic
import VectorRisc.Proofs.Assembler.Acts

namespace VectorRisc

namespace Assembler

/-! ### Visits and calls -/

/-- A line once its expressions are gone, and the state it is assembled in. -/
structure Visit where
  state : State
  line : Text

namespace Visit

/-- The line is an equate. -/
def isEquate (v : Visit) : Bool := v.line.fields.head? = some (Text.ofString ".equ")

/-- The name that an equate gives a text to. -/
def equated? (v : Visit) : Option Text :=
  match v.line.fields with
  | [word, name, _] => if word = Text.ofString ".equ" then some name else none
  | _ => none

/-- The labels at the front of the line, once names have given way to their texts, in one group. An equate
    has no such group. -/
def fronts (v : Visit) : List (List Text) :=
  if v.isEquate then [] else [(leadingLabels (v.state.substitute v.line)).1.map Mark.name]

/-- The labels that the line declares. -/
def labels (v : Visit) : List Text := v.fronts.flatten

theorem labels_of_mem_fronts {v : Visit} {front : List Text} (h : front ∈ v.fronts) : v.labels = front := by
  rw [labels]
  rw [fronts] at h ⊢
  split at h
  · cases h
  · rename_i hequate
    rw [if_neg hequate, List.mem_singleton.1 h, List.flatten_singleton]

end Visit

/-- A macro call: the name of the macro, the number of the line of the source, and the lines of the body.
    Those of calls within the body are not among them. -/
structure Call where
  name : Text
  lineNo : Nat
  visits : List Visit

/-- The labels of the body. -/
def Call.labels (c : Call) : List Text := c.visits.flatMap Visit.labels

/-- The lines visited outside of calls, and the calls. -/
structure Trace where
  visits : List Visit := []
  calls : List Call := []

namespace Trace

instance : Append Trace where
  append s t := ⟨s.visits ++ t.visits, s.calls ++ t.calls⟩

@[simp] theorem visits_append (s t : Trace) : (s ++ t).visits = s.visits ++ t.visits := rfl

@[simp] theorem calls_append (s t : Trace) : (s ++ t).calls = s.calls ++ t.calls := rfl

/-- All lines visited, in calls or outside of them. -/
def all (t : Trace) : List Visit := t.visits ++ t.calls.flatMap Call.visits

/-- The labels outside of calls. -/
def outer (t : Trace) : List Text := t.visits.flatMap Visit.labels

/-- All labels. -/
def labels (t : Trace) : List Text := t.all.flatMap Visit.labels

theorem labels_eq (t : Trace) : t.labels = t.outer ++ t.calls.flatMap Call.labels := by
  rw [labels, all, List.flatMap_append, List.flatMap_assoc]
  rfl

theorem labels_eq_flatten (t : Trace) : t.labels = (t.all.flatMap Visit.fronts).flatten := by
  have hlabels : Visit.labels = fun v => v.fronts.flatMap id := funext fun v => List.flatten_eq_flatMap
  rw [labels, hlabels, List.flatten_eq_flatMap, List.flatMap_assoc]

/-- The lines of two traces one after the other, in an order of their own. -/
theorem all_append (s t : Trace) : (s ++ t).all.Perm (s.all ++ t.all) := by
  simp only [all, visits_append, calls_append, List.flatMap_append, List.append_assoc]
  refine List.Perm.append_left _ ?_
  simp only [← List.append_assoc]
  exact List.Perm.append_right _ List.perm_append_comm

theorem fronts_append (s t : Trace) : ((s ++ t).all.flatMap Visit.fronts).Perm
    (s.all.flatMap Visit.fronts ++ t.all.flatMap Visit.fronts) := by
  have h := (all_append s t).flatMap_right Visit.fronts
  rwa [List.flatMap_append] at h

end Trace

/-! ### Traces of a line

The functions here go along with those of the assembler of the same names; `assembleOne` assembles a line
and `traceOne` gives its trace. -/

/-- The trace of the lines of a macro's body. -/
def bodyTrace (assembleOne : State → Text → Nat → Except Failure State)
    (traceOne : State → Text → Nat → Trace) (name : Text) : (lineNo : Nat) → List Text → State → Trace
  | _, [], _ => {}
  | lineNo, line :: rest, s =>
    let unique := name ++ [ascii '_'] ++ Numeral.natural 10 s.lineNo ++ [ascii '_']
    let line := Text.replaceByte (ascii '@') unique line
    traceOne s line lineNo ++
      match assembleOne s line lineNo with
      | .error _ => {}
      | .ok t => bodyTrace assembleOne traceOne name (lineNo + 1) rest t

/-- The trace of a macro call: what is visited outside of further calls belongs to this one. -/
def macroTrace (assembleOne : State → Text → Nat → Except Failure State)
    (traceOne : State → Text → Nat → Trace) (s : State) (name : Text) (m : Macro)
    (values : List Text) : Trace :=
  if values.length ≠ m.args.length then {}
  else
    let body := bodyTrace assembleOne traceOne name m.lineNo m.lines (s.bindArgs m.args values)
    { calls := ⟨name, s.lineNo, body.visits⟩ :: body.calls }

/-- The trace of a macro call, or of what is none. -/
def commandTrace (assembleOne : State → Text → Nat → Except Failure State)
    (traceOne : State → Text → Nat → Trace) (s : State) (line : Text) : Trace :=
  let (word, rest) := splitCommand line
  match s.macros.lookup word with
  | some m => macroTrace assembleOne traceOne s word m rest.splitOperands
  | none => {}

/-- The trace of a line, with room on the stack for `depth` nested lines. -/
def lineTrace : (depth : Nat) → State → Text → Nat → Trace
  | 0, _, _, _ => {}
  | depth + 1, s, line, lineNo =>
    if line.isEmpty then {}
    else
      let s := { s with equates := s.equates.set lineEquate (Numeral.natural 10 lineNo) }
      match replaceExpressions (evalExpression s.host s.equates) line with
      | .error _ => {}
      | .ok line =>
        { visits := [⟨s, line⟩] } ++
          if line.fields.head? = some (Text.ofString ".equ") then {}
          else
            let text := s.substitute line
            match s.declareAll (leadingLabels text).1, (leadingLabels text).2 with
            | .ok s, .ok line =>
              if line.isEmpty then {} else commandTrace (assembleLine depth) (lineTrace depth) s line
            | _, _ => {}

/-! ### Traces of a source -/

/-- The trace of one line of the source. A macro definition has none. -/
def sourceLineTrace (s : State) (text : Text) : Trace :=
  let words := (clean text).fields
  if words.head? = some (Text.ofString ".macro") then {}
  else if words.head? = some (Text.ofString ".endm") then {}
  else
    match (s.reading text).openMacro with
    | some _ => {}
    | none => lineTrace (s.host.stack + 1) (s.reading text) (clean text) (s.lineNo + 1)

/-- The trace of the lines of a source. -/
def linesTrace : List Text → State → Trace
  | [], _ => {}
  | text :: rest, s =>
    sourceLineTrace s text ++
      match assembleSourceLine s text with
      | .error _ => {}
      | .ok t => linesTrace rest t

/-- The state in which the first line of a source is read. -/
def startOf (a : Assembler) (source : Text) : State :=
  { a.start with labels := labelsOf source.lines }

/-- The trace of a source. -/
def trace (a : Assembler) (source : Text) : Trace :=
  if source.hasLongLine then {} else linesTrace source.lines (a.startOf source)

/-! ### Labels of deeds and of traces -/

/-- The labels that an act declares, in one group. -/
def Act.fronts : Act → List (List Text)
  | .labels text => [(leadingLabels text).1.map Mark.name]
  | _ => []

/-- The labels that a deed declares, in one group. -/
def Deed.fronts (d : Deed) : List (List Text) := d.act.fronts

section Lines

variable {assembleOne : State → Text → Nat → Except Failure State}
  {deedsOne : State → Text → Nat → List Deed} {traceOne : State → Text → Nat → Trace}

theorem bodyDeeds_fronts
    (hone : ∀ s line lineNo, ((deedsOne s line lineNo).flatMap Deed.fronts).Perm
      ((traceOne s line lineNo).all.flatMap Visit.fronts))
    (name : Text) (lineNo : Nat) (lines : List Text) (s : State) :
    ((bodyDeeds assembleOne deedsOne name lineNo lines s).flatMap Deed.fronts).Perm
      ((bodyTrace assembleOne traceOne name lineNo lines s).all.flatMap Visit.fronts) := by
  induction lines generalizing lineNo s with
  | nil => exact .refl _
  | cons line rest ih =>
      simp only [bodyDeeds, bodyTrace, List.flatMap_append]
      refine .trans ?_ (Trace.fronts_append _ _).symm
      refine (hone s _ lineNo).append ?_
      cases assembleOne s _ lineNo with
      | error f => exact .refl _
      | ok t => exact ih (lineNo + 1) t

theorem commandDeeds_fronts
    (hone : ∀ s line lineNo, ((deedsOne s line lineNo).flatMap Deed.fronts).Perm
      ((traceOne s line lineNo).all.flatMap Visit.fronts)) (s : State) (line : Text) (labelled : Bool) :
    ((commandDeeds assembleOne deedsOne s line labelled).flatMap Deed.fronts).Perm
      ((commandTrace assembleOne traceOne s line).all.flatMap Visit.fronts) := by
  simp only [commandDeeds, commandTrace]
  cases s.macros.lookup (splitCommand line).1 with
  | some m =>
      simp only [macroDeeds, macroTrace]
      split
      · exact .refl _
      · exact bodyDeeds_fronts hone _ _ _ _
  | none =>
      dsimp only
      split
      · exact .refl _
      · split
        · exact .refl _
        · exact .refl _

end Lines

theorem lineDeeds_fronts (depth : Nat) (s : State) (line : Text) (lineNo : Nat) :
    ((lineDeeds depth s line lineNo).flatMap Deed.fronts).Perm
      ((lineTrace depth s line lineNo).all.flatMap Visit.fronts) := by
  induction depth generalizing s line lineNo with
  | zero => exact .refl _
  | succ depth ih =>
      rw [lineDeeds, lineTrace]
      split
      · exact .refl _
      · generalize { s with equates := s.equates.set lineEquate (Numeral.natural 10 lineNo) } = s
        dsimp only
        cases replaceExpressions (evalExpression s.host s.equates) line with
        | error e => exact .refl _
        | ok line =>
            refine .trans ?_ (Trace.fronts_append _ _).symm
            dsimp only
            split
            · rename_i hequate
              have hnone : (⟨s, line⟩ : Visit).fronts = [] := by
                simp [Visit.fronts, Visit.isEquate, hequate]
              simp [Trace.all, hnone]
            · rename_i hequate
              have hlabels : (⟨s, line⟩ : Visit).fronts =
                  [(leadingLabels (s.substitute line)).1.map Mark.name] := by
                simp [Visit.fronts, Visit.isEquate, hequate]
              rw [List.flatMap_cons]
              refine List.Perm.append (by simp [Trace.all, hlabels, Deed.fronts, Act.fronts]) ?_
              cases s.declareAll (leadingLabels (s.substitute line)).1 with
              | error f => exact .refl _
              | ok t =>
                  cases (leadingLabels (s.substitute line)).2 with
                  | error e => exact .refl _
                  | ok line =>
                      dsimp only
                      split
                      · exact .refl _
                      · exact commandDeeds_fronts ih _ _ _

theorem sourceLineDeeds_fronts (s : State) (text : Text) :
    ((sourceLineDeeds s text).flatMap Deed.fronts).Perm
      ((sourceLineTrace s text).all.flatMap Visit.fronts) := by
  simp only [sourceLineDeeds, sourceLineTrace]
  split
  · exact .refl _
  · split
    · exact .refl _
    · cases (s.reading text).openMacro with
      | some name => exact .refl _
      | none => exact lineDeeds_fronts _ _ _ _

/-- The labels that the deeds of a source declare are those of the lines it visits. -/
theorem linesDeeds_fronts (lines : List Text) (s : State) :
    ((linesDeeds lines s).flatMap Deed.fronts).Perm
      ((linesTrace lines s).all.flatMap Visit.fronts) := by
  induction lines generalizing s with
  | nil => exact .refl _
  | cons text rest ih =>
      simp only [linesDeeds, linesTrace, List.flatMap_append]
      refine .trans ?_ (Trace.fronts_append _ _).symm
      refine (sourceLineDeeds_fronts s text).append ?_
      cases assembleSourceLine s text with
      | error f => exact .refl _
      | ok t => exact ih t

end Assembler

end VectorRisc
