/-
Module: VectorRisc.Proofs.Assembler.Located
Layer: Proofs
Purpose: Errors name the line of the source they arise in. While a line is assembled, with all that its macro
  calls expand to, the place in the source stays the same, so an error tells of that line however deep it
  lies. An error at the end of a source tells of the last line, or of a line that refers to a label that is
  missing.
Imports: Mathlib.Tactic, VectorRisc.Command.Host, VectorRisc.Proofs.Assembler.Binding
Trusted boundary: none
Main exports: Assembler.Error.TellsOf, Assembler.Stays, Assembler.assembleSourceLine_stays,
  Assembler.Deed.Refers, Assembler.Blames, Assembler.assemble_located
Open obligations: none
-/
import Mathlib.Tactic
import VectorRisc.Command.Host
import VectorRisc.Proofs.Assembler.Binding

namespace VectorRisc

namespace Assembler

/-! ### The place in the source -/

/-- Wherever the error names a line of the source, it is that of the reference. -/
def Error.TellsOf (here : Reference) : Error → Prop
  | .located lineNo line e => lineNo = here.lineNo ∧ line = here.line ∧ e.TellsOf here
  | .inMacro _ _ e => e.TellsOf here
  | _ => True

/-- The result is at a place in the source, and tells of no other one. -/
inductive Stays (here : Reference) : Except Failure State → Prop where
  | ok {t : State} (hhere : t.here = here) : Stays here (.ok t)
  | error {f : Failure} (hhere : f.state.here = here) (htells : f.error.TellsOf here) : Stays here (.error f)

theorem here_of_stays {here : Reference} {t : State} (h : Stays here (.ok t)) : t.here = here := by
  cases h with
  | ok hhere => exact hhere

theorem error_of_stays {here : Reference} {f : Failure} (h : Stays here (.error f)) :
    f.state.here = here ∧ f.error.TellsOf here := by
  cases h with
  | error hhere htells => exact ⟨hhere, htells⟩

/-- The error names no place by itself. -/
def Error.isPlain : Error → Bool
  | .located _ _ _ | .inMacro _ _ _ => false
  | _ => true

theorem Error.TellsOf.of_isPlain {e : Error} (h : e.isPlain = true) (here : Reference) : e.TellsOf here := by
  cases e with
  | located | inMacro => cases h
  | _ => trivial

theorem stays_fail (s : State) {e : Error} (h : e.isPlain = true) : Stays s.here (s.fail e) :=
  .error rfl (.of_isPlain h _)

/-- An error that is told with the place it arose in. -/
theorem locate_eq {here : Reference} {f : Failure} (h : Stays here (.error f))
    (hends : f.error.isExhausted = false) :
    ∃ cause, locate f.state f.error = .located here.lineNo here.line cause ∧ cause.TellsOf here ∧
      (f.error = cause ∨ f.error = .located here.lineNo here.line cause) := by
  obtain ⟨rfl, htells⟩ := error_of_stays h
  cases he : f.error with
  | located lineNo line cause =>
      rw [he] at htells
      obtain ⟨rfl, rfl, hcause⟩ := htells
      exact ⟨cause, rfl, hcause, .inr rfl⟩
  | exhausted what =>
      rw [he] at hends
      cases hends
  | _ =>
      rw [he] at htells
      exact ⟨_, rfl, htells, .inl rfl⟩

theorem isExhausted_of_locate {s : State} {e : Error} (h : (locate s e).isExhausted = false) :
    e.isExhausted = false := by
  cases e with
  | exhausted => cases h
  | _ => rfl

/-! ### Acts -/

theorem here_enter (s : State) (segment : Segment) : (s.enter segment).here = s.here := by
  simp only [State.enter]
  split <;> split <;> rfl

theorem isPlain_of_isOfDirective {e : Error} (h : e.isOfDirective = true) : e.isPlain = true := by
  cases e with
  | located | inMacro => cases h
  | _ => rfl

theorem isPlain_of_isOfLine {e : Error} (h : e.isOfLine = true) : e.isPlain = true := by
  cases e with
  | located | inMacro => cases h
  | _ => rfl

theorem stays_ite {here : Reference} {c : Prop} [Decidable c] {x y : Except Failure State}
    (hx : Stays here x) (hy : Stays here y) : Stays here (if c then x else y) := by
  split
  · exact hx
  · exact hy

section Directives

variable (s : State) (name args : Text)

theorem alignDirective_stays : Stays s.here (s.alignDirective args) := by
  rw [State.alignDirective]
  cases h : count args with
  | error e => exact stays_fail s (isPlain_of_isOfDirective (isOfDirective_of_count h))
  | ok n => exact stays_ite (stays_fail s rfl) (.ok rfl)

theorem spaceDirective_stays : Stays s.here (s.spaceDirective args) := by
  rw [State.spaceDirective]
  cases h : count args with
  | error e => exact stays_fail s (isPlain_of_isOfDirective (isOfDirective_of_count h))
  | ok n =>
      dsimp only
      cases hfits : s.fits n 1 with
      | error e => exact stays_fail s (isPlain_of_isOfDirective (isOfDirective_of_fits hfits))
      | ok _ => exact .ok rfl

theorem stringDirective_stays (encoding : Encoding) : Stays s.here (s.stringDirective encoding args) := by
  rw [State.stringDirective]
  cases Literal.string? args with
  | none => exact stays_fail s rfl
  | some t =>
      dsimp only
      cases h : encoding.bytes s.host t with
      | error e => exact stays_fail s (isPlain_of_isOfDirective (isOfDirective_of_bytes h))
      | ok bytes => exact .ok rfl

theorem repeatDirective_stays : Stays s.here (s.repeatDirective args) := by
  rw [State.repeatDirective]
  cases h : count args with
  | error e => exact stays_fail s (isPlain_of_isOfDirective (isOfDirective_of_count h))
  | ok n =>
      cases s.lastScalar with
      | none => exact stays_fail s rfl
      | some block =>
          dsimp only
          cases hfits : s.fits n (Bytes.roundUpNat block.length (s.alignment block.length)) with
          | error e => exact stays_fail s (isPlain_of_isOfDirective (isOfDirective_of_fits hfits))
          | ok _ => exact stays_ite (.ok rfl) (.ok rfl)

theorem scalarDirective_stays (kind : Scalar) : Stays s.here (s.scalarDirective kind name args) := by
  rw [State.scalarDirective]
  cases args.splitOperands with
  | nil => exact stays_fail s rfl
  | cons word words =>
      dsimp only
      cases h : scalarsBytes kind (word :: words) with
      | error e => exact stays_fail s (isPlain_of_isOfDirective (isOfDirective_of_scalarsBytes h))
      | ok items =>
          obtain ⟨_, _, _, _, hsame⟩ := emitScalars_eq (s.alignment kind.size) items s
          dsimp only
          rw [hsame]
          exact .ok rfl

theorem data_stays : Stays s.here (s.data name args) := by
  rw [State.data]
  cases dataDirective? name with
  | none => exact stays_fail s rfl
  | some d =>
      cases d with
      | align => exact alignDirective_stays s args
      | space => exact spaceDirective_stays s args
      | string encoding => exact stringDirective_stays s args encoding
      | again => exact repeatDirective_stays s args
      | scalar kind => exact scalarDirective_stays s name args kind

theorem externDirective_stays : Stays s.here (s.externDirective name args) := by
  refine stays_ite (stays_fail s rfl) ?_
  cases h : readLabels args with
  | error e => exact stays_fail s (isPlain_of_isOfDirective (isOfDirective_of_readLabels h))
  | ok labels => exact .ok rfl

theorem globalDirective_stays : Stays s.here (s.globalDirective args) := by
  rw [State.globalDirective]
  cases h : readLabels args with
  | error e => exact stays_fail s (isPlain_of_isOfDirective (isOfDirective_of_readLabels h))
  | ok labels =>
      obtain ⟨globals, hsame⟩ := foldl_addGlobal_eq labels s
      dsimp only
      rw [hsame]
      exact .ok rfl

theorem directive_stays (labelled : Bool) : Stays s.here (s.directive name args labelled) := by
  have hentry : Stays s.here (s.entryDirective name args) :=
    stays_ite (stays_fail s rfl) (stays_ite (stays_fail s rfl) (stays_ite (stays_fail s rfl) (.ok rfl)))
  rw [State.directive]
  cases segmentOf? name with
  | some segment =>
      exact stays_ite (stays_fail s rfl) (stays_ite (stays_fail s rfl) (.ok (here_enter s segment)))
  | none =>
      refine stays_ite (stays_fail s rfl) (stays_ite (stays_ite (.ok rfl) (stays_fail s rfl))
        (stays_ite hentry (stays_ite (externDirective_stays s name args)
          (stays_ite (globalDirective_stays s args) (stays_ite (stays_fail s ?_) (data_stays s name args))))))
      split <;> rfl

end Directives

theorem declareAll_stays (marks : List Mark) (s : State) : Stays s.here (s.declareAll marks) := by
  induction marks generalizing s with
  | nil => exact .ok rfl
  | cons mark rest ih =>
      rw [State.declareAll, declare_cases]
      by_cases hstarted : s.started = false
      · rw [if_pos hstarted]
        exact .error rfl trivial
      · rw [if_neg hstarted]
        by_cases hmem : mark.name ∈ s.declared
        · rw [if_pos hmem]
          exact .error rfl trivial
        · rw [if_neg hmem]
          exact ih { s with pending := s.pending ++ [mark] }

/-- An act stays at its place in the source. -/
theorem Act.stays (a : Act) (s : State) : Stays s.here (a.run s) := by
  cases a with
  | labels text => exact declareAll_stays _ s
  | directive name args labelled => exact directive_stays s name args labelled
  | instruction line =>
      rw [Act.run, State.instruction]
      cases h : s.codedLine line with
      | ok c => exact .ok rfl
      | error e =>
          refine stays_fail s ?_
          obtain rfl | ⟨rfl, -⟩ | ⟨cause, rfl⟩ := codedLine_eq_error h <;> rfl

/-! ### Lines -/

/-- What is told of an error in a macro's body names no other line. -/
theorem stays_inBody {here : Reference} {f : Failure} (h : Stays here (.error f)) (name : Text)
    (lineNo : Nat) : Stays here (.error (f.inBody name lineNo)) := by
  obtain ⟨hhere, htells⟩ := error_of_stays h
  rw [Failure.inBody]
  split
  · exact h
  · have hplace : f.state.lineNo = here.lineNo ∧ f.state.line = here.line := Reference.mk.inj hhere
    exact .error hhere ⟨hplace.1, hplace.2, htells⟩

section Lines

variable {assembleOne : State → Text → Nat → Except Failure State}

theorem assembleBody_stays (hone : ∀ s line lineNo, Stays s.here (assembleOne s line lineNo))
    (name : Text) (lineNo : Nat) (lines : List Text) (s : State) :
    Stays s.here (assembleBody assembleOne name lineNo lines s) := by
  induction lines generalizing lineNo s with
  | nil => exact .ok rfl
  | cons line rest ih =>
      simp only [assembleBody]
      generalize Text.replaceByte (ascii '@') _ line = line
      have hfirst := hone s line lineNo
      cases hresult : assembleOne s line lineNo with
      | error f =>
          rw [hresult] at hfirst
          exact stays_inBody hfirst name lineNo
      | ok t =>
          rw [hresult] at hfirst
          rw [← here_of_stays hfirst]
          exact ih (lineNo + 1) t

theorem callMacro_stays (hone : ∀ s line lineNo, Stays s.here (assembleOne s line lineNo)) (s : State)
    (name : Text) (m : Macro) (values : List Text) :
    Stays s.here (callMacro assembleOne s name m values) := by
  simp only [callMacro]
  split
  · exact stays_fail s rfl
  · have hbody := assembleBody_stays hone name m.lineNo m.lines (s.bindArgs m.args values)
    cases hresult : assembleBody assembleOne name m.lineNo m.lines (s.bindArgs m.args values) with
    | error f =>
        rw [hresult] at hbody
        obtain ⟨hhere, htells⟩ := error_of_stays hbody
        exact .error hhere htells
    | ok t =>
        rw [hresult] at hbody
        have hhere : t.here = s.here := here_of_stays hbody
        exact .ok hhere

theorem assembleCommand_stays (hone : ∀ s line lineNo, Stays s.here (assembleOne s line lineNo))
    (s : State) (line : Text) (labelled : Bool) :
    Stays s.here (assembleCommand assembleOne s line labelled) := by
  simp only [assembleCommand]
  cases s.macros.lookup (splitCommand line).1 with
  | some m => exact callMacro_stays hone s _ _ _
  | none =>
      simp only
      split
      · exact Act.stays (.directive _ _ labelled) s
      · split
        · exact stays_fail s rfl
        · exact Act.stays (.instruction line) s

end Lines

theorem equate_stays (s : State) (words : List Text) : Stays s.here (s.equate words) := by
  cases h : s.equate words with
  | ok t =>
      cases equate_aside h <;> exact .ok rfl
  | error f =>
      have hplain := isPlain_of_isOfLine (isOfLine_of_equate h)
      refine .error ?_ (.of_isPlain hplain _)
      simp only [State.equate, State.fail] at h
      repeat' split at h
      all_goals
        cases h
        try rfl

/-- A line is assembled at one place in the source, however deep its macro calls are. -/
theorem assembleLine_stays (depth : Nat) (s : State) (line : Text) (lineNo : Nat) :
    Stays s.here (assembleLine depth s line lineNo) := by
  induction depth generalizing s line lineNo with
  | zero => exact stays_fail s rfl
  | succ depth ih =>
      rw [assembleLine]
      split
      · exact .ok rfl
      · have hnumbered : s.here = { s with
            equates := s.equates.set lineEquate (Numeral.natural 10 lineNo) }.here := rfl
        rw [hnumbered]
        generalize { s with equates := s.equates.set lineEquate (Numeral.natural 10 lineNo) } = s
        dsimp only
        cases hline : replaceExpressions (evalExpression s.host s.equates) line with
        | error e => exact stays_fail s (isPlain_of_isOfLine (isOfLine_of_replaceExpressions hline))
        | ok line =>
            dsimp only
            split
            · exact equate_stays s _
            · have hlabels := declareAll_stays (leadingLabels (s.substitute line)).1 s
              cases hdeclared : s.declareAll (leadingLabels (s.substitute line)).1 with
              | error f =>
                  rw [hdeclared] at hlabels
                  exact hlabels
              | ok t =>
                  rw [hdeclared] at hlabels
                  rw [← here_of_stays hlabels]
                  cases hrest : (leadingLabels (s.substitute line)).2 with
                  | error e => exact stays_fail t (isPlain_of_isOfLine (isOfLine_of_leadingLabels hrest))
                  | ok line =>
                      dsimp only
                      split
                      · exact .ok rfl
                      · exact assembleCommand_stays ih t line _

theorem openDefinition_stays (s : State) (words : List Text) : Stays s.here (s.openDefinition words) := by
  simp only [State.openDefinition]
  split
  · exact stays_fail s rfl
  · split
    · split
      · exact stays_fail s rfl
      · split
        · exact stays_fail s rfl
        · exact .ok rfl
    · exact stays_fail s rfl

/-- The place of the line that is read next. -/
def State.next (s : State) (text : Text) : Reference := ⟨s.lineNo + 1, clean text⟩

/-- A line of the source is assembled at its place. -/
theorem assembleSourceLine_stays (s : State) (text : Text) :
    Stays (s.next text) (assembleSourceLine s text) := by
  have hread : s.next text = (s.reading text).here := rfl
  rw [assembleSourceLine_eq, hread]
  generalize s.reading text = u
  dsimp only
  split
  · exact openDefinition_stays u _
  · split
    · split
      · exact .ok rfl
      · exact stays_fail u rfl
    · cases u.openMacro with
      | some name => exact .ok rfl
      | none => exact assembleLine_stays (u.host.stack + 1) u (clean text) (s.lineNo + 1)

/-! ### Line by line -/

/-- Lines that are not assembled fail in the first one that is not. -/
theorem assembleLines_eq_error {lines : List Text} {s : State} {f : Failure}
    (h : assembleLines lines s = .error f) :
    ∃ n text u, lines[n]? = some text ∧ assembleLines (lines.take n) s = .ok u ∧
      assembleSourceLine u text = .error f ∧ u.lineNo = s.lineNo + n := by
  induction lines generalizing s with
  | nil => cases h
  | cons text rest ih =>
      cases hfirst : assembleSourceLine s text with
      | error g =>
          rw [assembleLines, hfirst] at h
          cases h
          exact ⟨0, text, s, rfl, rfl, hfirst, rfl⟩
      | ok t =>
          rw [assembleLines, hfirst] at h
          obtain ⟨n, line, u, hline, hbefore, hfails, hnumber⟩ := ih h
          have hstays := assembleSourceLine_stays s text
          rw [hfirst] at hstays
          have hread : t.lineNo = s.lineNo + 1 := congrArg Reference.lineNo (here_of_stays hstays)
          refine ⟨n + 1, line, u, hline, ?_, hfails, by omega⟩
          rw [List.take_succ_cons, assembleLines, hfirst]
          exact hbefore

/-- Every deed of lines is one of some line. -/
theorem exists_of_mem_linesDeeds {lines : List Text} {s : State} {d : Deed} (h : d ∈ linesDeeds lines s) :
    ∃ n text u, lines[n]? = some text ∧ assembleLines (lines.take n) s = .ok u ∧
      d ∈ sourceLineDeeds u text ∧ u.lineNo = s.lineNo + n := by
  induction lines generalizing s with
  | nil => cases h
  | cons text rest ih =>
      rw [linesDeeds, List.mem_append] at h
      rcases h with hfirst | hlater
      · exact ⟨0, text, s, rfl, rfl, hfirst, rfl⟩
      · cases hline : assembleSourceLine s text with
        | error f =>
            rw [hline] at hlater
            cases hlater
        | ok t =>
            rw [hline] at hlater
            obtain ⟨n, line, u, hn, hbefore, hdeed, hnumber⟩ := ih hlater
            have hstays := assembleSourceLine_stays s text
            rw [hline] at hstays
            have hread : t.lineNo = s.lineNo + 1 := congrArg Reference.lineNo (here_of_stays hstays)
            refine ⟨n + 1, line, u, hn, ?_, hdeed, by omega⟩
            rw [List.take_succ_cons, assembleLines, hline]
            exact hbefore

/-- Lines that are assembled end at the place of the last one. -/
theorem here_of_assembleLines {lines : List Text} {s t : State} (h : assembleLines lines s = .ok t) :
    t.lineNo = s.lineNo + lines.length ∧ ∀ text, lines.getLast? = some text → t.line = clean text := by
  induction lines generalizing s with
  | nil =>
      cases h
      exact ⟨rfl, by simp⟩
  | cons text rest ih =>
      cases hfirst : assembleSourceLine s text with
      | error f =>
          rw [assembleLines, hfirst] at h
          cases h
      | ok u =>
          rw [assembleLines, hfirst] at h
          have hstays := assembleSourceLine_stays s text
          rw [hfirst] at hstays
          obtain ⟨hnumber, hlast⟩ := ih h
          have hread : u.lineNo = s.lineNo + 1 := congrArg Reference.lineNo (here_of_stays hstays)
          have hline : u.line = clean text := congrArg Reference.line (here_of_stays hstays)
          refine ⟨by rw [hnumber, hread, List.length_cons]; omega, ?_⟩
          intro last hend
          cases rest with
          | nil =>
              cases h
              cases hend
              exact hline
          | cons second rest => exact hlast last hend

/-- All deeds of a run stay at one place, as long as no other line is read. -/
theorem Course.here {s : State} {deeds : List Deed} {result : Except Failure State}
    (h : Course Aside s deeds result) : ∀ d ∈ deeds, d.state.here = s.here := by
  have hpassed {u v : State} (hsteps : Relation.ReflTransGen Aside u v) : v.here = u.here := by
    induction hsteps with
    | refl => rfl
    | tail _ hstep ih => cases hstep <;> exact ih
  induction h with
  | ends | fails => simp
  | @does s t d rest result hsteps hdeed _ ih =>
      have hstays := Act.stays d.act d.state
      rw [← Deed.result, hdeed] at hstays
      have hthere := here_of_stays hstays
      intro other hother
      rcases List.mem_cons.1 hother with rfl | hlater
      · exact hpassed hsteps
      · exact (ih other hlater).trans (hthere.trans (hpassed hsteps))
  | breaks hsteps =>
      intro other hother
      rw [List.mem_singleton.1 hother]
      exact hpassed hsteps

/-! ### References -/

/-- The deed refers to the label: it is an instruction with the label as an operand that is not declared to
    be of another object, or it makes the label global or the entry. -/
inductive Deed.Refers (d : Deed) (label : Text) : Prop where
  | operand {line : Text} {c : State.Coded} (hact : d.act = .instruction line)
      (hc : d.state.codedLine line = .ok c) (hlabel : c.written.label = label)
      (hinternal : label ∉ d.state.externs)
  | global {args : Text} {labelled : Bool}
      (hact : d.act = .directive (Text.ofString ".global") args labelled) (hlabel : label ∈ args.splitOperands)
  | entry {labelled : Bool} (hact : d.act = .directive (Text.ofString ".entry") label labelled)

/-- The labels that have to be defined by the end of the source, with the lines that refer to them. -/
def State.references (s : State) : List (Text × Reference) :=
  s.globals ++ s.entry.toList ++
    (s.requests.toList.filter fun r => r.relocation.scope = .internal).map fun r =>
      (r.relocation.label, r.source)

theorem Passes.references {s t : State} (h : Relation.ReflTransGen Passes s t) :
    t.references = s.references := by
  induction h with
  | refl => rfl
  | tail _ hstep ih =>
      cases hstep with
      | reads => exact ih
      | aside haside => cases haside <;> exact ih

theorem references_enter (s : State) (segment : Segment) : (s.enter segment).references = s.references := by
  simp only [State.enter]
  split <;> split <;> rfl

theorem mem_globals_of_addGlobal {labels : List Text} {s : State} {p : Text × Reference}
    (h : p ∈ (labels.foldl State.addGlobal s).globals) :
    p ∈ s.globals ∨ p.1 ∈ labels ∧ p.2 = s.here := by
  induction labels generalizing s with
  | nil => exact .inl h
  | cons label rest ih =>
      rcases ih h with hold | ⟨hlater, hhere⟩
      · rw [State.addGlobal, List.mem_append, List.mem_filter, List.mem_singleton] at hold
        rcases hold with ⟨hold, -⟩ | rfl
        · exact .inl hold
        · exact .inr ⟨List.mem_cons_self, rfl⟩
      · exact .inr ⟨List.mem_cons_of_mem _ hlater, hhere⟩

theorem readLabels_eq_ok {args : Text} {labels : List Text} (h : readLabels args = .ok labels) :
    labels = args.splitOperands := by
  rw [readLabels] at h
  split at h
  · cases h
  · split at h
    · cases h
    · exact (Except.ok.inj h).symm

theorem Writes.references {s t : State} {args : Text} {d : DataDirective} (h : Writes s args d t) :
    t.references = s.references := by
  cases h with
  | @scalars kind items =>
      obtain ⟨_, _, _, _, hsame⟩ := emitScalars_eq (s.alignment kind.size) items s
      rw [hsame]
      rfl
  | _ => rfl

/-- A directive refers to the labels that it adds to those that have to be defined. -/
theorem refers_of_directive {s t : State} {name args : Text} {labelled : Bool}
    (h : s.directive name args labelled = .ok t) {p : Text × Reference} (hp : p ∈ t.references) :
    p ∈ s.references ∨ s.here = p.2 ∧ (⟨s, .directive name args labelled⟩ : Deed).Refers p.1 := by
  have hsame (hsame : t.references = s.references) : p ∈ s.references := hsame ▸ hp
  rw [State.directive] at h
  split at h
  · split at h
    · cases h
    · split at h
      · cases h
      · cases h
        exact .inl (hsame (references_enter s _))
  · split at h
    · cases h
    · split at h
      · split at h
        · cases h
          exact .inl (hsame rfl)
        · cases h
      · split at h
        · rename_i hname
          subst hname
          obtain rfl := entryDirective_cases h
          simp only [State.references, List.mem_append, Option.mem_toList,
            Option.some.injEq] at hp ⊢
          rcases hp with (hglobal | rfl) | hrequest
          · exact .inl (.inl (.inl hglobal))
          · exact .inr ⟨rfl, .entry rfl⟩
          · exact .inl (.inr hrequest)
        · split at h
          · obtain ⟨labels, rfl⟩ := externDirective_cases h
            exact .inl (hsame rfl)
          · split at h
            · rename_i hname
              subst hname
              rw [State.globalDirective] at h
              split at h
              · cases h
              · rename_i labels hlabels
                cases h
                obtain rfl := readLabels_eq_ok hlabels
                obtain ⟨globals, hrest⟩ := foldl_addGlobal_eq args.splitOperands s
                have hentry := congrArg State.entry hrest
                have hrequests := congrArg State.requests hrest
                simp only [State.references, hentry, hrequests, List.mem_append] at hp ⊢
                rcases hp with (hglobal | hentry) | hrequest
                · rcases mem_globals_of_addGlobal hglobal with hold | ⟨hlabel, hhere⟩
                  · exact .inl (.inl (.inl hold))
                  · exact .inr ⟨hhere.symm, .global rfl hlabel⟩
                · exact .inl (.inl (.inr hentry))
                · exact .inl (.inr hrequest)
            · split at h
              · cases h
              · obtain ⟨d, -, hwrites⟩ := data_cases h
                exact .inl (hsame hwrites.references)

/-- A relocation stays within the object unless its label is declared to be of another one. -/
theorem scope_request {s : State} {x : Instruction} {offset : UInt64} :
    (s.request x offset).relocation.scope = .internal ↔ x.label ∉ s.externs := by
  have hne : Scope.global ≠ Scope.internal := by decide
  by_cases hextern : x.label ∈ s.externs
  · simp [State.request, hextern, hne]
  · simp [State.request, hextern]

/-- A deed refers to the labels that it adds to those that have to be defined. -/
theorem Deed.refers {d : Deed} {t : State} (h : d.result = .ok t) {p : Text × Reference}
    (hp : p ∈ t.references) : p ∈ d.state.references ∨ d.state.here = p.2 ∧ d.Refers p.1 := by
  obtain ⟨s, act⟩ := d
  cases act with
  | labels text =>
      obtain rfl := declareAll_eq_ok h
      exact .inl hp
  | directive name args labelled => exact refers_of_directive h hp
  | instruction line =>
      obtain ⟨c, hc, rfl⟩ := instruction_eq_ok h
      by_cases hlabel : c.written.label = []
      · simp only [State.references, State.place, hlabel, List.isEmpty_nil, if_true] at hp
        exact .inl hp
      · simp only [State.references, State.place, List.isEmpty_iff, hlabel, if_false,
          Array.toList_push, List.filter_append, List.map_append, List.mem_append] at hp ⊢
        rcases hp with hold | hold | hnew
        · exact .inl (.inl hold)
        · exact .inl (.inr hold)
        · obtain ⟨r, hr, rfl⟩ := List.mem_map.1 hnew
          obtain ⟨hr, hscope⟩ := List.mem_filter.1 hr
          obtain rfl := List.mem_singleton.1 hr
          have hinternal : c.written.label ∉ s.externs :=
            scope_request.1 (of_decide_eq_true hscope)
          exact .inr ⟨rfl, .operand rfl hc rfl hinternal⟩

/-- The labels that have to be defined after a run are those from before, and those its deeds refer to. -/
theorem Course.refers {s t : State} {deeds : List Deed} (h : Course Passes s deeds (.ok t))
    {p : Text × Reference} (hp : p ∈ t.references) :
    p ∈ s.references ∨ ∃ d ∈ deeds, d.state.here = p.2 ∧ d.Refers p.1 := by
  induction h using Course.ok_induction with
  | ends hsteps => exact .inl (Passes.references hsteps ▸ hp)
  | does hsteps hdeed _ ih =>
      rcases ih with hbefore | ⟨d, hd, hrefers⟩
      · rcases Deed.refers hdeed hbefore with hbefore | hrefers
        · exact .inl (Passes.references hsteps ▸ hbefore)
        · exact .inr ⟨_, List.mem_cons_self, hrefers⟩
      · exact .inr ⟨d, List.mem_cons_of_mem _ hd, hrefers⟩

/-- A run declares the labels of its deeds. -/
theorem Course.declared {s t : State} {deeds : List Deed} (h : Course Passes s deeds (.ok t))
    (hs : Orderly s) : t.declared = s.declared ++ (deeds.flatMap Deed.fronts).flatten ∧ Orderly t := by
  induction h using Course.ok_induction with
  | ends hsteps =>
      have hsame := SameLabels.passes hsteps
      exact ⟨by simp [hsame.declared], hs.same hsame⟩
  | does hsteps hdeed _ ih =>
      have hsame := SameLabels.passes hsteps
      obtain ⟨hdeclared, horderly⟩ := Act.declared hdeed (hs.same hsame)
      obtain ⟨hall, hend⟩ := ih horderly
      refine ⟨?_, hend⟩
      rw [hall, hdeclared, hsame.declared]
      simp [Deed.fronts]

theorem isDefined_iff {s : State} {name : Text} :
    s.isDefined name = true ↔ name ∈ s.symbols.toList.map Symbol.label := by
  simp [State.isDefined, ← Array.any_toList]

/-- What is missing at the end of a source has been referred to, and is not declared. -/
theorem missing_of_finish {s : State} (hs : Orderly s) {e : Error} (h : s.finish.2 = .error e) :
    ∃ label reference, e = State.missing reference label ∧ (label, reference) ∈ s.references ∧
      label ∉ s.declared := by
  have hbound : (if s.started then s.bindLabels else s).references = s.references ∧
      (if s.started then s.bindLabels else s).symbols.toList.map Symbol.label = s.declared := by
    split
    · have hdeclared := (SameLabels.bindLabels s).declared
      rw [← hdeclared]
      exact ⟨rfl, (List.append_nil _).symm⟩
    · rename_i hstarted
      have hpending := hs.pending_eq_nil (by simpa using hstarted)
      exact ⟨rfl, by simp [State.declared, hpending]⟩
  simp only [State.finish] at h
  generalize (if s.started then s.bindLabels else s) = u at h hbound
  obtain ⟨hreferences, hlabels⟩ := hbound
  rw [← hreferences, ← hlabels]
  simp only [← isDefined_iff, State.references, List.mem_append]
  split at h
  · rename_i hmissing
    cases h
    rcases Option.or_eq_some_iff.1 hmissing with hglobal | ⟨-, hlabel⟩
    · obtain ⟨label, -, hfound⟩ := List.exists_of_findSome?_eq_some hglobal
      split at hfound
      · cases hfound
      · rename_i hundefined
        obtain ⟨source, hsource, rfl⟩ := Option.map_eq_some_iff.1 hfound
        obtain ⟨before, after, hglobals, -⟩ := List.lookup_eq_some_iff.1 hsource
        exact ⟨label, source, rfl, .inl (.inl (by simp [hglobals])), hundefined⟩
    · obtain ⟨r, hr, hfound⟩ := List.exists_of_findSome?_eq_some hlabel
      split at hfound
      · cases hfound
      · rename_i hundefined
        simp only [ne_eq, Bool.or_eq_true, decide_eq_true_eq, not_or, not_not] at hundefined
        refine ⟨_, _, (Option.some.inj hfound).symm, .inr ?_, hundefined.2⟩
        exact List.mem_map.2 ⟨r, List.mem_filter.2 ⟨hr, decide_eq_true hundefined.1⟩, rfl⟩
  · split at h
    · cases h
    · rename_i label source hentry
      split at h
      · rename_i hnone
        refine ⟨label, source, (Except.error.inj h).symm, .inl (.inr (by simp [hentry])), ?_⟩
        rw [isDefined_iff, ← map_label_scopedSymbols]
        intro hmem
        obtain ⟨sym, hsym, hlabel⟩ := List.mem_map.1 hmem
        simpa [hlabel] using List.find?_eq_none.1 hnone sym hsym
      · cases h

/-! ### Whole sources -/

/-- Why an assembly fails at a line of its source, which is `text` and has `n` lines before it. -/
inductive Blames (a : Assembler) (source : Text) (n : Nat) (text : Text) : Error → Prop where
  /-- The lines before are assembled, and this one is not, be it in a macro that it calls. -/
  | line {s : State} {f : Failure} {cause : Error} (hbefore : a.afterLines source n = .ok s)
      (hfails : assembleSourceLine s text = .error f)
      (hcause : f.error = cause ∨ f.error = .located (n + 1) (clean text) cause) :
      Blames a source n text cause
  /-- All lines are assembled and this is the last one, but a macro is still open. -/
  | last {s : State} (hlines : a.afterLines source (n + 1) = .ok s)
      (hlast : source.lines.length = n + 1) (hopen : s.openMacro.isSome = true) :
      Blames a source n text .macroOpen
  /-- The line, be it in a macro that it calls, refers to a label that nothing in the source declares. -/
  | label {s : State} {d : Deed} {label : Text} (hbefore : a.afterLines source n = .ok s)
      (hdeed : d ∈ sourceLineDeeds s text) (hrefers : d.Refers label)
      (hmissing : ∀ other ∈ linesDeeds source.lines (a.startOf source), label ∉ other.marks.map Mark.name) :
      Blames a source n text (.labelMissing label)

/-- The error names a line of the source, which is to blame for it. -/
structure PointsAt (a : Assembler) (source : Text) (e : Error) (n : Nat) (text : Text) (cause : Error) :
    Prop where
  line : source.lines[n]? = some text
  told : e = .located (n + 1) (clean text) cause
  /-- Whatever else in the error names a line, that of a macro call, names the same one. -/
  tells : cause.TellsOf ⟨n + 1, clean text⟩
  blames : Blames a source n text cause

section Sources

variable {a : Assembler} {source : Text}

/-- The labels of a deed are a group of their own. -/
theorem mem_fronts_of_mem_marks {d : Deed} {label : Text} (h : label ∈ d.marks.map Mark.name) :
    d.marks.map Mark.name ∈ d.fronts := by
  obtain ⟨s, act⟩ := d
  cases act with
  | labels text => exact List.mem_singleton_self _
  | directive | instruction => cases h

theorem lineNo_startOf (a : Assembler) (source : Text) : (a.startOf source).lineNo = 0 := rfl

/-- An error in the lines points at the first one that is not assembled. -/
theorem pointsAt_of_lines {f : Failure} (h : assembleLines source.lines (a.startOf source) = .error f)
    (hends : f.error.isExhausted = false) :
    ∃ n text cause, PointsAt a source (locate f.state f.error) n text cause := by
  obtain ⟨n, text, s, hline, hbefore, hfails, hnumber⟩ := assembleLines_eq_error h
  rw [lineNo_startOf, Nat.zero_add] at hnumber
  have hstays := assembleSourceLine_stays s text
  rw [hfails, State.next, hnumber] at hstays
  obtain ⟨cause, htold, htells, hcause⟩ := locate_eq hstays hends
  exact ⟨n, text, cause, hline, htold, htells, .line hbefore hfails hcause⟩

/-- The error of a macro that stays open points at the last line. -/
theorem pointsAt_of_last {s : State} (h : assembleLines source.lines (a.startOf source) = .ok s)
    (hopen : s.openMacro.isSome = true) :
    ∃ n text cause, PointsAt a source (locate s .macroOpen) n text cause := by
  obtain ⟨hnumber, hline⟩ := here_of_assembleLines h
  rw [lineNo_startOf, Nat.zero_add] at hnumber
  cases hlast : source.lines.getLast? with
  | none =>
      -- without lines no macro is open
      rw [List.getLast?_eq_none_iff] at hlast
      rw [hlast] at h
      cases h
      cases hopen
  | some text =>
      obtain ⟨n, hn⟩ : ∃ n, source.lines.length = n + 1 := by
        refine Nat.exists_eq_succ_of_ne_zero fun hzero => ?_
        rw [List.length_eq_zero_iff.1 hzero] at hlast
        cases hlast
      have hall : a.afterLines source (n + 1) = .ok s := by
        rw [afterLines, ← hn, List.take_length]
        exact h
      refine ⟨n, text, .macroOpen, ?_, ?_, trivial, .last hall hn hopen⟩
      · rw [← hlast, List.getLast?_eq_getElem?, hn, Nat.add_sub_cancel]
      · have htold : locate s .macroOpen = .located s.lineNo s.line .macroOpen := rfl
        rw [htold, hnumber, hn, hline text hlast]

/-- An error of a label that is missing points at a line that refers to it. -/
theorem pointsAt_of_finish {s : State} (h : assembleLines source.lines (a.startOf source) = .ok s)
    {e : Error} (hfinish : s.finish.2 = .error e) :
    ∃ n text cause, PointsAt a source (locate s.finish.1 e) n text cause := by
  have hcourse := assembleLines_course source.lines (a.startOf source)
  rw [h] at hcourse
  obtain ⟨hdeclared, horderly⟩ := hcourse.declared (startOf_orderly a source)
  obtain ⟨label, reference, rfl, hreference, hmissing⟩ := missing_of_finish horderly hfinish
  rcases hcourse.refers hreference with hnone | ⟨d, hd, hhere, hrefers⟩
  · cases hnone
  · obtain ⟨n, text, u, hline, hbefore, hdeed, hnumber⟩ := exists_of_mem_linesDeeds hd
    rw [lineNo_startOf, Nat.zero_add] at hnumber
    have hplace : reference = ⟨n + 1, clean text⟩ := by
      have hread : d.state.here = ⟨u.lineNo + 1, clean text⟩ :=
        (assembleSourceLine_course u text).here d hdeed
      rw [hnumber] at hread
      exact hhere.symm.trans hread
    subst hplace
    refine ⟨n, text, .labelMissing label, hline, rfl, trivial, .label hbefore hdeed hrefers ?_⟩
    intro other hother hmark
    have hfront := mem_fronts_of_mem_marks hmark
    refine hmissing ?_
    rw [hdeclared, declared_startOf, List.nil_append, List.mem_flatten]
    exact ⟨other.marks.map Mark.name, List.mem_flatMap.2 ⟨other, hother, hfront⟩, hmark⟩

/-- Errors point at the right line. If a source is not assembled, and neither for a line that is too long to
    read nor because the process ends, the error names a line of the source by its number and its text
    without comment. That line is the one to blame: the first that is not assembled, macro calls and all; or
    the last one, where a macro stays open; or one that refers to a label that is missing. -/
theorem assemble_located {e : Error} (h : (assemble a source).2 = .error e)
    (hlong : source.hasLongLine = false) (hends : e.isExhausted = false) :
    ∃ n text cause, PointsAt a source e n text cause := by
  have hstart : { a.start with labels := labelsOf source.lines } = a.startOf source := rfl
  simp only [assemble, hlong, Bool.false_eq_true, if_false, hstart] at h
  cases hlines : assembleLines source.lines (a.startOf source) with
  | error f =>
      rw [hlines] at h
      dsimp only at h
      rw [Failure.told] at h
      split at h
      · cases h
        cases hends
      · cases h
        exact pointsAt_of_lines hlines (isExhausted_of_locate hends)
  | ok s =>
      rw [hlines] at h
      dsimp only at h
      split at h
      · cases h
        cases hends
      · split at h
        · rename_i hopen
          cases h
          exact pointsAt_of_last hlines hopen
        · cases hfinish : s.finish.2 with
          | error cause =>
              rw [hfinish] at h
              cases h
              exact pointsAt_of_finish hlines hfinish
          | ok file =>
              rw [hfinish] at h
              cases h

/-- A macro within a macro that comes to a line which is no instruction. -/
def brokenSource : Text :=
  Text.ofString (".macro inner\nbroken 1\n.endm\n.macro outer\nnop\ninner\n.endm\n.text\nnop\n" ++
    "  outer # here\nnop\n")

theorem assemble_located_brokenSource : ∃ e n text cause,
    (assemble (Command.assembler []) brokenSource).2 = .error e ∧
    PointsAt (Command.assembler []) brokenSource e n text cause ∧
    e = .located 10 (Text.ofString "outer") (.inMacro (Text.ofString "outer") 6
      (.located 10 (Text.ofString "outer") (.inMacro (Text.ofString "inner") 2
        (.instruction (.mnemonicUnknown (Text.ofString "broken")))))) := by
  have hrun : (match (assemble (Command.assembler []) brokenSource).2 with
      | .ok _ => none
      | .error e => some e) =
      some (Error.located 10 (Text.ofString "outer") (.inMacro (Text.ofString "outer") 6
        (.located 10 (Text.ofString "outer") (.inMacro (Text.ofString "inner") 2
          (.instruction (.mnemonicUnknown (Text.ofString "broken"))))))) := by
    decide +kernel
  cases h : (assemble (Command.assembler []) brokenSource).2 with
  | ok file =>
      rw [h] at hrun
      cases hrun
  | error e =>
      rw [h] at hrun
      have htold := Option.some.inj hrun
      obtain ⟨n, text, cause, hpoints⟩ := assemble_located h (by decide +kernel) (by rw [htold]; rfl)
      exact ⟨e, n, text, cause, rfl, hpoints, htold⟩

end Sources

end Assembler

end VectorRisc
