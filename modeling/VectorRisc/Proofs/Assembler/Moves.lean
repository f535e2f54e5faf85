/-
Module: VectorRisc.Proofs.Assembler.Moves
Layer: Proofs
Purpose: What the assembly of a source can do to the object under construction. Every line comes down to
  a few elementary moves: a label waits, waiting labels are bound, bytes are written to a data segment,
  an instruction is placed in a code segment. Invariants of the object follow from these moves alone.
Imports: Mathlib.Tactic, VectorRisc.Proofs.Assembler.Directives
Trusted boundary: none
Main exports: Assembler.SameObject, Assembler.Move, Assembler.Moves, Assembler.Course.moves,
  Assembler.assembleLines_moves
Open obligations: none
-/
import Mathlib.Tactic
import VectorRisc.Proofs.Assembler.Directives

namespace VectorRisc

namespace Assembler

/-- The states agree on the object under construction: the sections, what is listed of them and refers to
    them, and the labels that wait. -/
structure SameObject (s t : State) : Prop where
  table : t.table = s.table
  listing : t.listing = s.listing
  sections : t.sections = s.sections
  symbols : t.symbols = s.symbols
  requests : t.requests = s.requests
  pending : t.pending = s.pending

theorem SameObject.trans {s t u : State} (h : SameObject s t) (hnext : SameObject t u) : SameObject s u :=
  ⟨hnext.table.trans h.table, hnext.listing.trans h.listing, hnext.sections.trans h.sections,
    hnext.symbols.trans h.symbols, hnext.requests.trans h.requests, hnext.pending.trans h.pending⟩

/-- An elementary move. -/
inductive Move : State → State → Prop where
  | aside {s t : State} (h : SameObject s t) : Move s t
  | waits {s : State} (mark : Mark) (hlabel : mark.name.isLabel = true)
      (hsymbols : s.isDefined mark.name = false)
      (hpending : (s.pending.any fun m => m.name = mark.name) = false) :
      Move s { s with pending := s.pending ++ [mark] }
  | binds (s : State) : Move s s.bindLabels
  | writes {s : State} (bytes : ByteArray) (hdata : s.segment.isCode = false) : Move s (s.append bytes)
  | places {s : State} (line : Text) (c : State.Coded) (h : s.codedLine line = .ok c) :
      Move s (s.place line c)

/-- Moves one after the other. -/
abbrev Moves : State → State → Prop := Relation.ReflTransGen Move

theorem Moves.aside {s t : State} (h : SameObject s t) : Moves s t := .single (.aside h)

/-- A state reached by moves, with something changed besides the object. -/
theorem Moves.andAside {s t u : State} (h : Moves s t) (hu : SameObject t u) : Moves s u :=
  h.tail (.aside hu)

/-! ### Labels -/

/-- What is cut from the front of a line as a label is one. -/
theorem isLabel_of_cutLabel {line rest : Text} {mark : Mark}
    (h : cutLabel line = .ok (some (mark, rest))) : mark.name.isLabel = true := by
  rw [cutLabel] at h
  split at h
  · cases h
  · simp only at h
    split at h <;>
    · split at h
      · rename_i hlabel
        cases h
        exact hlabel
      · cases h

theorem isLabel_of_leadingLabelsFrom {fuel : Nat} {line : Text} :
    ∀ mark ∈ (leadingLabelsFrom fuel line).1, mark.name.isLabel = true := by
  induction fuel generalizing line with
  | zero => simp [leadingLabelsFrom]
  | succ fuel ih =>
      rw [leadingLabelsFrom]
      split
      · simp
      · simp
      · rename_i mark rest hcut
        intro other hother
        rcases List.mem_cons.1 hother with rfl | hrest
        · exact isLabel_of_cutLabel hcut
        · exact ih other hrest

/-- Labels that are declared wait. -/
theorem declareAll_eq_ok {marks : List Mark} {s t : State} (h : s.declareAll marks = .ok t) :
    t = { s with pending := s.pending ++ marks } := by
  induction marks generalizing s with
  | nil =>
      cases h
      rw [List.append_nil]
  | cons mark rest ih =>
      rw [State.declareAll] at h
      split at h
      · cases h
      · rename_i next hnext
        rw [State.declare] at hnext
        split at hnext
        · cases hnext
        · split at hnext
          · cases hnext
          · cases hnext
            have hrest := ih h
            rwa [List.append_assoc, List.singleton_append] at hrest

theorem declareAll_moves {marks : List Mark} {s t : State}
    (hmarks : ∀ mark ∈ marks, mark.name.isLabel = true) (h : s.declareAll marks = .ok t) :
    Moves s t := by
  induction marks generalizing s with
  | nil =>
      cases h
      exact .refl
  | cons mark rest ih =>
      rw [State.declareAll] at h
      split at h
      · cases h
      · rename_i next hnext
        have hrest := ih (fun m hm => hmarks m (List.mem_cons_of_mem _ hm)) h
        refine Relation.ReflTransGen.trans (.single ?_) hrest
        rw [State.declare] at hnext
        split at hnext
        · cases hnext
        · split at hnext
          · cases hnext
          · rename_i hfresh
            cases hnext
            simp only [Bool.or_eq_true, not_or, Bool.not_eq_true] at hfresh
            exact .waits mark (hmarks mark List.mem_cons_self) hfresh.1 hfresh.2

/-! ### Data -/

/-- An item in a data segment: the waiting labels bind, then its bytes are written. -/
theorem emit_moves {s : State} (hdata : s.segment.isCode = false) (bytes : ByteArray) :
    Moves s (s.emit bytes) :=
  .tail (.single (.binds s)) (.writes bytes hdata)

theorem padTo_emit_moves {s : State} (hdata : s.segment.isCode = false) (align : Nat)
    (bytes : ByteArray) : Moves s ((s.padTo align).emit bytes) :=
  .head (.writes _ hdata) (emit_moves (s := s.padTo align) hdata bytes)

theorem emitScalars_moves {s : State} (hdata : s.segment.isCode = false) (align : Nat)
    (items : List (List UInt8)) : Moves s (s.emitScalars align items) := by
  induction items generalizing s with
  | nil => exact .refl
  | cons item rest ih =>
      refine (padTo_emit_moves hdata align (Bytes.ofList item)).trans ?_
      exact ih (s := (s.padTo align).emit (Bytes.ofList item)) hdata

/-- A directive of a data segment writes there. -/
theorem Writes.moves {s t : State} {args : Text} {d : DataDirective} (hdata : s.segment.isCode = false)
    (h : Writes s args d t) : Moves s t := by
  cases h with
  | aligns hn => exact .aside ⟨rfl, rfl, rfl, rfl, rfl, rfl⟩
  | zeros hn => exact (padTo_emit_moves hdata _ _).andAside ⟨rfl, rfl, rfl, rfl, rfl, rfl⟩
  | text ht => exact (padTo_emit_moves hdata _ _).andAside ⟨rfl, rfl, rfl, rfl, rfl, rfl⟩
  | repeatsNone hn => exact .refl
  | repeats hn hblock => exact padTo_emit_moves hdata _ _
  | scalars hitems => exact (emitScalars_moves hdata _ _).andAside ⟨rfl, rfl, rfl, rfl, rfl, rfl⟩

/-! ### Directives -/

theorem enter_moves (s : State) (segment : Segment) : Moves s (s.enter segment) := by
  have hbind : Moves s (if s.started then s.bindLabels else s) := by
    split
    · exact .single (.binds s)
    · exact .refl
  refine hbind.andAside ?_
  cases hcode : segment.isCode with
  | true =>
      simp only [State.enter, hcode, if_true]
      exact ⟨rfl, rfl, rfl, rfl, rfl, rfl⟩
  | false =>
      simp only [State.enter, hcode, Bool.false_eq_true, if_false]
      exact ⟨rfl, rfl, rfl, rfl, rfl, rfl⟩

theorem addGlobal_same {s t : State} (labels : List Text) (h : SameObject s t) :
    SameObject s (labels.foldl State.addGlobal t) := by
  induction labels generalizing t with
  | nil => exact h
  | cons label rest ih => exact ih ⟨h.table, h.listing, h.sections, h.symbols, h.requests, h.pending⟩

/-- A directive changes the object only by binding labels or writing data. -/
theorem Directs.moves {s t : State} {name args : Text} (h : Directs s name args t) : Moves s t := by
  cases h with
  | enters segment => exact enter_moves s segment
  | kernelStart | entry | externs => exact .aside ⟨rfl, rfl, rfl, rfl, rfl, rfl⟩
  | globals _ labels => exact .aside (addGlobal_same labels ⟨rfl, rfl, rfl, rfl, rfl, rfl⟩)
  | data hdata _ hwrites => exact hwrites.moves hdata

/-- An instruction line that is assembled is understood and placed. -/
theorem instruction_eq_ok {s t : State} {line : Text} (h : s.instruction line = .ok t) :
    ∃ c, s.codedLine line = .ok c ∧ t = s.place line c := by
  rw [State.instruction] at h
  split at h
  · cases h
  · exact ⟨_, ‹_›, (Except.ok.inj h).symm⟩

theorem instruction_moves {s t : State} {line : Text} (h : s.instruction line = .ok t) :
    Moves s t := by
  obtain ⟨c, hc, rfl⟩ := instruction_eq_ok h
  exact .single (.places line c hc)

/-! ### Runs

A run makes moves in its deeds, and between them it leaves the object alone. -/

theorem Act.moves {a : Act} {s t : State} (h : a.run s = .ok t) : Moves s t := by
  cases a with
  | labels text => exact declareAll_moves (fun m hm => isLabel_of_leadingLabelsFrom m hm) h
  | directive name args labelled => exact (directive_cases h).moves
  | instruction line => exact instruction_moves h

theorem Passes.same {s t : State} (h : Passes s t) : SameObject s t := by
  cases h with
  | reads text => exact ⟨rfl, rfl, rfl, rfl, rfl, rfl⟩
  | aside h => cases h <;> exact ⟨rfl, rfl, rfl, rfl, rfl, rfl⟩

/-- Between deeds the object stays as it is. -/
theorem Passes.sameObject {s t : State} (h : Relation.ReflTransGen Passes s t) : SameObject s t := by
  induction h with
  | refl => exact ⟨rfl, rfl, rfl, rfl, rfl, rfl⟩
  | tail _ hstep ih => exact ih.trans hstep.same

theorem Passes.moves {s t : State} (h : Relation.ReflTransGen Passes s t) : Moves s t :=
  Relation.ReflTransGen.mono (fun _ _ hstep => .aside (Passes.same hstep)) _ _ h

namespace Course

variable {s t : State} {deeds : List Deed} {result : Except Failure State}

theorem moves (h : Course Passes s deeds (.ok t)) : Moves s t := by
  induction h using ok_induction with
  | ends h => exact Passes.moves h
  | does h hdeed _ ih => exact ((Passes.moves h).trans (Act.moves hdeed)).trans ih

/-- Moves lead to every deed. -/
theorem moves_to (h : Course Passes s deeds result) {d : Deed} (hd : d ∈ deeds) : Moves s d.state := by
  induction h with
  | ends | fails => cases hd
  | does h hdeed _ ih =>
      rcases List.mem_cons.1 hd with rfl | hd
      · exact Passes.moves h
      · exact ((Passes.moves h).trans (Act.moves hdeed)).trans (ih hd)
  | breaks h =>
      rw [List.mem_singleton.1 hd]
      exact Passes.moves h

end Course

/-- The lines of a source come down to moves. -/
theorem assembleLines_moves {lines : List Text} {s t : State} (h : assembleLines lines s = .ok t) :
    Moves s t := by
  have hcourse := assembleLines_course lines s
  rw [h] at hcourse
  exact hcourse.moves

end Assembler

end VectorRisc
