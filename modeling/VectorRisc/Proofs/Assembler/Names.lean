/-
Module: VectorRisc.Proofs.Assembler.Names
Layer: Proofs
Purpose: Acts do not look at names. A name that is given a text stands for it, and the others for what they
  stood for. Equates, macros and the labels of the source decide what a line comes down to; once it has come
  down to an act, the act goes the same way whatever they are, and leaves them as they are, also where it
  fails.
Imports: Mathlib.Tactic, VectorRisc.Proofs.Assembler.Acts
Trusted boundary: none
Main exports: Assembler.Equates.get?_set, Assembler.State.withNames, Assembler.named,
  Assembler.Act.run_withNames, Assembler.Act.names_eq
Open obligations: none
-/
import Mathlib.Tactic
import VectorRisc.Proofs.Assembler.Acts

namespace VectorRisc

namespace Assembler

/-! ### Texts of names -/

namespace Equates

theorem get?_cons (name value : Text) (rest : Equates) (other : Text) :
    get? ((name, value) :: rest) other = if other = name then some value else rest.get? other := by
  rw [get?, List.lookup_cons]
  by_cases h : other = name
  · simp [h]
  · rw [if_neg h, beq_false_of_ne h]
    rfl

theorem get?_set (equates : Equates) (name value other : Text) :
    (equates.set name value).get? other = if other = name then some value else equates.get? other := by
  induction equates with
  | nil => rw [set, get?_cons]
  | cons entry rest ih =>
      obtain ⟨n, v⟩ := entry
      rw [set]
      split
      · rename_i hname
        subst hname
        rw [get?_cons, get?_cons]
        split <;> rfl
      · rename_i hname
        rw [get?_cons, get?_cons, ih]
        by_cases h : other = n
        · subst h
          simp [hname]
        · simp [h]

end Equates

/-! ### States with other names -/

/-- The state with the names of another: its equates, its macros and their arguments, and the labels of its
    source. -/
def State.withNames (s u : State) : State :=
  { s with
    equates := u.equates
    macros := u.macros
    openMacro := u.openMacro
    labels := u.labels
    args := u.args }

/-- The result with the names of a state. -/
def named (u : State) : Except Failure State → Except Failure State
  | .ok t => .ok (t.withNames u)
  | .error f => .error ⟨f.error, f.state.withNames u⟩

theorem named_ite {u : State} {c : Prop} [Decidable c] {x y x' y' : Except Failure State}
    (hx : x' = named u x) (hy : y' = named u y) : (if c then x' else y') = named u (if c then x else y) := by
  split
  · exact hx
  · exact hy

variable (s u : State)

theorem declareAll_withNames (marks : List Mark) :
    (s.withNames u).declareAll marks = named u (s.declareAll marks) := by
  induction marks generalizing s with
  | nil => rfl
  | cons mark rest ih =>
      have hone : (s.withNames u).declare mark = named u (s.declare mark) :=
        named_ite rfl (named_ite rfl rfl)
      rw [State.declareAll, State.declareAll, hone]
      cases s.declare mark with
      | error f => rfl
      | ok t => exact ih t

theorem emitScalars_withNames (align : Nat) (items : List (List UInt8)) :
    (s.withNames u).emitScalars align items = (s.emitScalars align items).withNames u := by
  induction items generalizing s with
  | nil => rfl
  | cons item rest ih => exact ih ((s.padTo align).emit (Bytes.ofList item))

theorem addGlobal_withNames (labels : List Text) :
    labels.foldl State.addGlobal (s.withNames u) = (labels.foldl State.addGlobal s).withNames u := by
  induction labels generalizing s with
  | nil => rfl
  | cons label rest ih => exact ih (s.addGlobal label)

theorem enter_withNames (segment : Segment) :
    (s.withNames u).enter segment = (s.enter segment).withNames u := by
  have hstarted : (s.withNames u).started = s.started := rfl
  simp only [State.enter, hstarted]
  cases s.started with
  | false => cases segment.isCode <;> rfl
  | true => cases segment.isCode <;> rfl

section Directives

variable (name args : Text)

theorem alignDirective_withNames :
    (s.withNames u).alignDirective args = named u (s.alignDirective args) := by
  rw [State.alignDirective, State.alignDirective]
  cases count args with
  | error e => rfl
  | ok n => exact named_ite rfl rfl

theorem spaceDirective_withNames :
    (s.withNames u).spaceDirective args = named u (s.spaceDirective args) := by
  rw [State.spaceDirective, State.spaceDirective]
  cases count args with
  | error e => rfl
  | ok n =>
      have hfits : (s.withNames u).fits n 1 = s.fits n 1 := rfl
      dsimp only
      rw [hfits]
      cases s.fits n 1 with
      | error e => rfl
      | ok _ => rfl

theorem stringDirective_withNames (encoding : Encoding) :
    (s.withNames u).stringDirective encoding args = named u (s.stringDirective encoding args) := by
  rw [State.stringDirective, State.stringDirective]
  cases Literal.string? args with
  | none => rfl
  | some t =>
      have hhost : (s.withNames u).host = s.host := rfl
      dsimp only
      rw [hhost]
      cases encoding.bytes s.host t with
      | error e => rfl
      | ok bytes => rfl

theorem repeatDirective_withNames :
    (s.withNames u).repeatDirective args = named u (s.repeatDirective args) := by
  have hlast : (s.withNames u).lastScalar = s.lastScalar := rfl
  have halign (n : Nat) : (s.withNames u).alignment n = s.alignment n := rfl
  have hfits (n stride : Nat) : (s.withNames u).fits n stride = s.fits n stride := rfl
  simp only [State.repeatDirective, hlast, halign, hfits]
  cases count args with
  | error e => rfl
  | ok n =>
      cases s.lastScalar with
      | none => rfl
      | some block =>
          dsimp only
          cases s.fits n (Bytes.roundUpNat block.length (s.alignment block.length)) with
          | error e => rfl
          | ok _ => exact named_ite rfl rfl

theorem scalarDirective_withNames (kind : Scalar) :
    (s.withNames u).scalarDirective kind name args = named u (s.scalarDirective kind name args) := by
  simp only [State.scalarDirective, emitScalars_withNames]
  cases args.splitOperands with
  | nil => rfl
  | cons word words =>
      dsimp only
      cases scalarsBytes kind (word :: words) with
      | error e => rfl
      | ok items => rfl

theorem data_withNames : (s.withNames u).data name args = named u (s.data name args) := by
  rw [State.data, State.data]
  cases dataDirective? name with
  | none => rfl
  | some d =>
      cases d with
      | align => exact alignDirective_withNames s u args
      | space => exact spaceDirective_withNames s u args
      | string encoding => exact stringDirective_withNames s u args encoding
      | again => exact repeatDirective_withNames s u args
      | scalar kind => exact scalarDirective_withNames s u name args kind

theorem externDirective_withNames :
    (s.withNames u).externDirective name args = named u (s.externDirective name args) := by
  refine named_ite rfl ?_
  cases readLabels args with
  | error e => rfl
  | ok labels => rfl

theorem globalDirective_withNames :
    (s.withNames u).globalDirective args = named u (s.globalDirective args) := by
  simp only [State.globalDirective, addGlobal_withNames]
  cases readLabels args with
  | error e => rfl
  | ok labels => rfl

theorem directive_withNames (labelled : Bool) :
    (s.withNames u).directive name args labelled = named u (s.directive name args labelled) := by
  rw [State.directive, State.directive]
  cases segmentOf? name with
  | some segment =>
      refine named_ite rfl (named_ite rfl ?_)
      rw [enter_withNames]
      rfl
  | none =>
      refine named_ite rfl (named_ite (named_ite rfl rfl) (named_ite ?_ (named_ite ?_ (named_ite ?_ ?_))))
      · exact named_ite rfl (named_ite rfl (named_ite rfl rfl))
      · exact externDirective_withNames s u name args
      · exact globalDirective_withNames s u args
      · exact named_ite rfl (data_withNames s u name args)

end Directives

theorem instruction_withNames (line : Text) :
    (s.withNames u).instruction line = named u (s.instruction line) := by
  have hcoded : (s.withNames u).codedLine line = s.codedLine line := rfl
  rw [State.instruction, State.instruction, hcoded]
  cases s.codedLine line with
  | error e => rfl
  | ok c => rfl

/-- What an act leads to does not depend on names, which it leaves as they are. -/
theorem Act.run_withNames (a : Act) : a.run (s.withNames u) = named u (a.run s) := by
  cases a with
  | labels text => exact declareAll_withNames s u _
  | directive name args labelled => exact directive_withNames s u name args labelled
  | instruction line => exact instruction_withNames s u line

/-- An act that succeeds leaves names as they are. -/
theorem Act.names_eq {a : Act} {s t : State} (h : a.run s = .ok t) : t.withNames s = t := by
  have hsame : a.run s = named s (a.run s) := a.run_withNames s s
  rw [h] at hsame
  exact (Except.ok.inj hsame).symm

theorem Act.names_eq_of_error {a : Act} {s : State} {f : Failure} (h : a.run s = .error f) :
    f.state.withNames s = f.state := by
  have hsame : a.run s = named s (a.run s) := a.run_withNames s s
  rw [h] at hsame
  exact (congrArg Failure.state (Except.error.inj hsame)).symm

end Assembler

end VectorRisc
