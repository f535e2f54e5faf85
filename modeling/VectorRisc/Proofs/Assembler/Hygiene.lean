/-
Module: VectorRisc.Proofs.Assembler.Hygiene
Layer: Proofs
Purpose: Labels of macro bodies. In a call, the sign `@` stands for the name of the macro and the number of
  the line of the source. A run declares the labels of the lines it visits, and fails for a duplicate
  exactly if they have one. Where bodies declare labels with the sign only, that takes two calls with the
  same text for the sign: calls of one macro on one line of the source, or of macros whose names continue
  one another by a line number.
Imports: Mathlib.Tactic, VectorRisc.Command.Host, VectorRisc.Proofs.Assembler.Tiling,
  VectorRisc.Proofs.Assembler.Trace, VectorRisc.Proofs.Numeral.Integer
Trusted boundary: none
Main exports: Assembler.Call.mark, Assembler.Call.eq_or_continues, Assembler.State.declared,
  Assembler.Course.duplicate_iff, Assembler.assemble_duplicate_iff, Assembler.Trace.Scoped,
  Assembler.assemble_hygienic, Assembler.assemble_not_always_hygienic
Open obligations: none
-/
import Mathlib.Tactic
import VectorRisc.Command.Host
import VectorRisc.Proofs.Assembler.Tiling
import VectorRisc.Proofs.Assembler.Trace
import VectorRisc.Proofs.Numeral.Integer

namespace VectorRisc

namespace Assembler

/-! ### Marks of calls -/

namespace Call

/-- The name of the macro, and the number of the line of the source. -/
def stem (c : Call) : Text := c.name ++ [ascii '_'] ++ Numeral.natural 10 c.lineNo

/-- What the sign `@` stands for. -/
def mark (c : Call) : Text := c.stem ++ [ascii '_']

/-- The calls declare a label in common. -/
def Shares (c d : Call) : Prop := ∃ label ∈ c.labels, label ∈ d.labels

instance (c d : Call) : Decidable (c.Shares d) :=
  inferInstanceAs (Decidable (∃ label ∈ c.labels, label ∈ d.labels))

end Call

section Divided

variable {u v w z : Text} {b : UInt8}

theorem isPrefix_of_divided (h : u ++ b :: v <+: w ++ b :: z) (hu : b ∉ u) : u <+: w := by
  induction u generalizing w with
  | nil => exact List.nil_prefix
  | cons a u ih =>
      rw [List.mem_cons, not_or] at hu
      obtain ⟨ha, hu⟩ := hu
      cases w with
      | nil => exact absurd (List.cons_prefix_cons.1 h).1.symm ha
      | cons c w =>
          obtain ⟨rfl, hrest⟩ := List.cons_prefix_cons.1 h
          exact List.cons_prefix_cons.2 ⟨rfl, ih hrest hu⟩

theorem eq_of_divided (h : u ++ b :: v <+: w ++ b :: z) (hu : b ∉ u) (hw : b ∉ w) : u = w := by
  obtain ⟨rest, rfl⟩ := isPrefix_of_divided h hu
  rw [List.append_assoc, List.prefix_append_right_inj] at h
  cases rest with
  | nil => rw [List.append_nil]
  | cons c rest =>
      obtain ⟨rfl, -⟩ := List.cons_prefix_cons.1 h
      simp at hw

end Divided

namespace Call

variable {c d : Call}

/-- A call's mark starts with that of another if both are of one macro on one line, or if the name of its
    macro starts with the other's name and line. -/
theorem eq_or_continues_of_mark (h : c.mark <+: d.mark) :
    c.name = d.name ∧ c.lineNo = d.lineNo ∨ c.stem <+: d.name := by
  have hdigits (n : Nat) : ascii '_' ∉ Numeral.natural 10 n :=
    Numeral.underscore_notMem_natural (by norm_num) (by norm_num) n
  have hc : c.mark = c.name ++ ascii '_' :: (Numeral.natural 10 c.lineNo ++ [ascii '_']) := by
    simp [mark, stem]
  have hd : d.mark = d.name ++ ascii '_' :: (Numeral.natural 10 d.lineNo ++ [ascii '_']) := by
    simp [mark, stem]
  rw [hc, hd] at h
  by_cases hname : c.name <+: d.name
  · obtain ⟨more, hmore⟩ := hname
    rw [← hmore, List.append_assoc, List.prefix_append_right_inj] at h
    cases more with
    | nil =>
        left
        have hrest := (List.cons_prefix_cons.1 h).2
        have hsame := eq_of_divided hrest (hdigits _) (hdigits _)
        exact ⟨by rw [← hmore, List.append_nil], Numeral.natural_injective (by norm_num) (by norm_num) hsame⟩
    | cons b more =>
        right
        obtain ⟨rfl, hrest⟩ := List.cons_prefix_cons.1 h
        have hline := isPrefix_of_divided hrest (hdigits _)
        rw [← hmore, stem, List.append_assoc, List.prefix_append_right_inj]
        exact List.cons_prefix_cons.2 ⟨rfl, hline⟩
  · -- then it is the other way round, and one divider behind the number had to be two of them
    have hother : d.name <+: c.name :=
      (List.prefix_or_prefix_of_prefix ((List.prefix_append _ _).trans h)
        (List.prefix_append _ _)).resolve_left hname
    obtain ⟨more, hmore⟩ := hother
    rw [← hmore, List.append_assoc, List.prefix_append_right_inj] at h
    cases more with
    | nil => exact absurd (by rw [← hmore, List.append_nil]) hname
    | cons b more =>
        rw [List.cons_append] at h
        obtain ⟨rfl, hrest⟩ := List.cons_prefix_cons.1 h
        have hcount := hrest.sublist.count_le (ascii '_')
        have hzero (n : Nat) : (Numeral.natural 10 n).count (ascii '_') = 0 :=
          List.count_eq_zero_of_not_mem (hdigits n)
        simp only [List.count_append, List.count_cons_self, List.count_nil, hzero] at hcount
        omega

/-- Calls whose marks start one text are of one macro on one line, or the name of one of the macros starts
    with the name and the line of the other call. -/
theorem eq_or_continues {label : Text} (hc : c.mark <+: label) (hd : d.mark <+: label) :
    c.name = d.name ∧ c.lineNo = d.lineNo ∨ c.stem <+: d.name ∨ d.stem <+: c.name := by
  rcases List.prefix_or_prefix_of_prefix hc hd with h | h
  · rcases eq_or_continues_of_mark h with hsame | hcontinues
    · exact .inl hsame
    · exact .inr (.inl hcontinues)
  · rcases eq_or_continues_of_mark h with hsame | hcontinues
    · exact .inl ⟨hsame.1.symm, hsame.2.symm⟩
    · exact .inr (.inr hcontinues)

end Call

/-! ### Labels of a state -/

/-- The labels declared so far: those that are bound, and those that wait. -/
def State.declared (s : State) : List Text := s.symbols.toList.map Symbol.label ++ s.pending.map Mark.name

/-- No label is declared on the way, and a segment is not left. -/
structure SameLabels (s t : State) : Prop where
  declared : t.declared = s.declared
  started : s.started = true → t.started = true

namespace SameLabels

theorem trans {s t u : State} (h : SameLabels s t) (hnext : SameLabels t u) : SameLabels s u :=
  ⟨hnext.declared.trans h.declared, fun hs => hnext.started (h.started hs)⟩

/-- Labels that waited are bound, and stay declared. -/
theorem bindLabels (s : State) : SameLabels s s.bindLabels := by
  have hnames : (s.pending.map (State.symbolOf s.segment (UInt64.ofNat s.filled))).map Symbol.label =
      s.pending.map Mark.name := by
    rw [List.map_map]
    rfl
  exact ⟨by simp [State.declared, State.bindLabels, hnames], id⟩

theorem enter (s : State) (segment : Segment) : SameLabels s (s.enter segment) := by
  have hbound : SameLabels s (if s.started then s.bindLabels else s) := by
    split
    · exact bindLabels s
    · exact ⟨rfl, id⟩
  refine hbound.trans ?_
  cases hcode : segment.isCode with
  | true =>
      simp only [State.enter, hcode, if_true]
      exact ⟨rfl, fun _ => rfl⟩
  | false =>
      simp only [State.enter, hcode, Bool.false_eq_true, if_false]
      exact ⟨rfl, fun _ => rfl⟩

theorem addGlobal (labels : List Text) (s : State) : SameLabels s (labels.foldl State.addGlobal s) := by
  induction labels generalizing s with
  | nil => exact ⟨rfl, id⟩
  | cons label rest ih =>
      have hone : SameLabels s (s.addGlobal label) := ⟨rfl, id⟩
      exact hone.trans (ih (s.addGlobal label))

theorem padTo_emit (s : State) (align : Nat) (bytes : ByteArray) :
    SameLabels s ((s.padTo align).emit bytes) := by
  have hbound := bindLabels (s.padTo align)
  exact ⟨hbound.declared, hbound.started⟩

theorem emitScalars (items : List (List UInt8)) (align : Nat) (s : State) :
    SameLabels s (s.emitScalars align items) := by
  induction items generalizing s with
  | nil => exact ⟨rfl, id⟩
  | cons item rest ih => exact (padTo_emit s align (Bytes.ofList item)).trans (ih _)

theorem directive {s t : State} {name args : Text} {labelled : Bool}
    (h : s.directive name args labelled = .ok t) : SameLabels s t := by
  cases directive_cases h with
  | enters segment => exact enter s segment
  | kernelStart | entry | externs => exact ⟨rfl, id⟩
  | globals _ labels => exact addGlobal labels s
  | data _ _ hwrites =>
      have hsame {u : State} {last : Option (List UInt8)} (hu : SameLabels s u) :
          SameLabels s { u with lastScalar := last } := ⟨hu.declared, hu.started⟩
      cases hwrites with
      | aligns | repeatsNone => exact ⟨rfl, id⟩
      | zeros | text => exact hsame (padTo_emit s _ _)
      | repeats => exact padTo_emit s _ _
      | scalars => exact hsame (emitScalars _ _ s)

theorem instruction {s t : State} {line : Text} (h : s.instruction line = .ok t) : SameLabels s t := by
  obtain ⟨c, -, rfl⟩ := instruction_eq_ok h
  have hbound := bindLabels s
  exact ⟨hbound.declared, hbound.started⟩

theorem passes {s t : State} (h : Relation.ReflTransGen Passes s t) : SameLabels s t := by
  induction h with
  | refl => exact ⟨rfl, id⟩
  | tail _ hstep ih =>
      refine ih.trans ?_
      cases hstep with
      | reads text => exact ⟨rfl, id⟩
      | aside h => cases h <;> exact ⟨rfl, id⟩

end SameLabels

/-! ### Labels of acts -/

/-- Labels are declared once, and only in a segment. -/
structure Orderly (s : State) : Prop where
  nodup : s.declared.Nodup
  started : s.declared ≠ [] → s.started = true

theorem Orderly.same {s t : State} (h : Orderly s) (hsame : SameLabels s t) : Orderly t where
  nodup := hsame.declared ▸ h.nodup
  started hne := hsame.started (h.started (hsame.declared ▸ hne))

/-- A label is refused if it is declared already. -/
theorem declare_cases (s : State) (mark : Mark) :
    s.declare mark =
      if s.started = false then .error ⟨.outsideSegment, s⟩
      else if mark.name ∈ s.declared then .error ⟨.labelDuplicate mark.name, s⟩
      else .ok { s with pending := s.pending ++ [mark] } := by
  have hdeclared : (s.isDefined mark.name || s.pending.any fun m => m.name = mark.name) = true ↔
      mark.name ∈ s.declared := by
    simp [State.declared, State.isDefined, ← Array.any_toList]
  simp only [State.declare, State.fail, hdeclared, Bool.not_eq_true']

/-- Labels are declared together if there is a segment and none of them is declared twice; otherwise the
    first one that is tells why not. -/
theorem declareAll_cases {s : State} (hs : Orderly s) (marks : List Mark) :
    (∃ t, s.declareAll marks = .ok t ∧ t.declared = s.declared ++ marks.map Mark.name ∧ Orderly t) ∨
    (∃ f, s.declareAll marks = .error f ∧ f.error = .outsideSegment ∧ s.started = false) ∨
    ∃ f name, s.declareAll marks = .error f ∧ f.error = .labelDuplicate name ∧
      ¬(s.declared ++ marks.map Mark.name).Nodup := by
  induction marks generalizing s with
  | nil => exact .inl ⟨s, rfl, by simp, hs⟩
  | cons mark rest ih =>
      rw [State.declareAll, declare_cases]
      by_cases hstarted : s.started = false
      · rw [if_pos hstarted]
        exact .inr (.inl ⟨_, rfl, rfl, hstarted⟩)
      · rw [if_neg hstarted]
        by_cases hmem : mark.name ∈ s.declared
        · rw [if_pos hmem]
          refine .inr (.inr ⟨_, mark.name, rfl, rfl, fun hnodup => ?_⟩)
          exact (List.nodup_append.1 hnodup).2.2 _ hmem _ (by simp) rfl
        · rw [if_neg hmem]
          have hnext : ({ s with pending := s.pending ++ [mark] } : State).declared =
              s.declared ++ [mark.name] := by
            simp [State.declared]
          have horderly : Orderly { s with pending := s.pending ++ [mark] } := by
            refine ⟨?_, fun _ => by simpa using hstarted⟩
            rw [hnext, ← List.concat_eq_append]
            exact hs.nodup.concat hmem
          have hsplit : s.declared ++ (mark :: rest).map Mark.name =
              (s.declared ++ [mark.name]) ++ rest.map Mark.name := by simp
          have hstill : ({ s with pending := s.pending ++ [mark] } : State).started = s.started := rfl
          rw [hsplit, ← hnext, ← hstill]
          exact ih horderly

/-- An act that is carried out has declared its labels. -/
theorem Act.declared {a : Act} {s t : State} (h : a.run s = .ok t) (hs : Orderly s) :
    t.declared = s.declared ++ a.fronts.flatten ∧ Orderly t := by
  cases a with
  | labels text =>
      rw [Act.run] at h
      rcases declareAll_cases hs (leadingLabels text).1 with ⟨u, hu, hall, horderly⟩ | ⟨f, hf, -⟩ |
        ⟨f, -, hf, -⟩
      · rw [hu] at h
        cases h
        exact ⟨by rw [hall]; simp [Act.fronts], horderly⟩
      · rw [hf] at h
        cases h
      · rw [hf] at h
        cases h
  | directive name args labelled =>
      have hsame := SameLabels.directive h
      exact ⟨by rw [hsame.declared]; simp [Act.fronts], hs.same hsame⟩
  | instruction line =>
      have hsame := SameLabels.instruction h
      exact ⟨by rw [hsame.declared]; simp [Act.fronts], hs.same hsame⟩

/-- An act that fails does so for a duplicate exactly if it is to declare a label a second time. -/
theorem Act.duplicate_iff {a : Act} {s : State} {f : Failure} (h : a.run s = .error f) (hs : Orderly s)
    (hfront : ∀ front ∈ a.fronts, front.Nodup) :
    (∃ name, f.error.cause = .labelDuplicate name) ↔ ¬(s.declared ++ a.fronts.flatten).Nodup := by
  cases a with
  | labels text =>
      rw [Act.run] at h
      have hflat : (Act.labels text).fronts.flatten = (leadingLabels text).1.map Mark.name := by
        simp [Act.fronts]
      rw [hflat]
      rcases declareAll_cases hs (leadingLabels text).1 with ⟨u, hu, -⟩ | ⟨g, hg, he, hoff⟩ |
        ⟨g, name, hg, he, htwice⟩
      · rw [hu] at h
        cases h
      · rw [hg] at h
        cases h
        have hnone : s.declared = [] := by
          by_contra hne
          rw [hs.started hne] at hoff
          cases hoff
        have hnodup : (s.declared ++ (leadingLabels text).1.map Mark.name).Nodup := by
          rw [hnone, List.nil_append]
          exact hfront _ (List.mem_singleton_self _)
        simp [he, Error.cause, hnodup]
      · rw [hg] at h
        cases h
        simp [he, Error.cause, htwice]
  | directive name args labelled =>
      have hof := isOfDirective_cause (isOfDirective_of_directive h)
      refine ⟨?_, fun hnot => absurd (by simpa [Act.fronts] using hs.nodup) hnot⟩
      rintro ⟨label, hcause⟩
      rw [hcause] at hof
      cases hof
  | instruction line =>
      refine ⟨?_, fun hnot => absurd (by simpa [Act.fronts] using hs.nodup) hnot⟩
      rintro ⟨label, hcause⟩
      rw [Act.run, State.instruction] at h
      split at h
      · rename_i hfault
        cases h
        obtain rfl | ⟨rfl, -⟩ | ⟨cause, rfl⟩ := codedLine_eq_error hfault <;> cases hcause
      · cases h

/-! ### Labels of runs -/

/-- A run fails for a duplicate exactly if the labels of its deeds, with those declared before, have one. -/
theorem Course.duplicate_iff {s : State} {deeds : List Deed} {result : Except Failure State}
    (h : Course Passes s deeds result) (hs : Orderly s)
    (hfronts : ∀ front ∈ deeds.flatMap Deed.fronts, front.Nodup) :
    (∃ f name, result = .error f ∧ f.error.cause = .labelDuplicate name) ↔
      ¬(s.declared ++ (deeds.flatMap Deed.fronts).flatten).Nodup := by
  induction h with
  | ends => simpa using hs.nodup
  | @fails s f hof =>
      have hother : ¬∃ name, f.error.cause = .labelDuplicate name := by
        rintro ⟨name, hcause⟩
        rw [hcause] at hof
        cases hof
      simpa [hs.nodup] using hother
  | @does s t d rest result hreach hdeed _ ih =>
      have hsame := SameLabels.passes hreach
      obtain ⟨hdeclared, horderly⟩ := Act.declared hdeed (hs.same hsame)
      rw [ih horderly fun front hfront => hfronts front (by simp [hfront]), hdeclared, hsame.declared]
      simp [Deed.fronts]
  | @breaks s d f g hreach hdeed hcause =>
      have hsame := SameLabels.passes hreach
      have hiff := Act.duplicate_iff hdeed (hs.same hsame) fun front hfront =>
        hfronts front (by simpa [Deed.fronts] using hfront)
      rw [← hcause, hsame.declared] at hiff
      simpa [Deed.fronts] using hiff

theorem declared_startOf (a : Assembler) (source : Text) : (a.startOf source).declared = [] := rfl

theorem startOf_orderly (a : Assembler) (source : Text) : Orderly (a.startOf source) :=
  ⟨by simp [declared_startOf], by simp [declared_startOf]⟩

/-- An assembly that has the memory it needs meets a duplicate in the lines of its source. -/
theorem assemble_duplicate_of_lines {a : Assembler} {source : Text}
    (hmemory : (assemble a source).2 ≠ .error (.exhausted .memory)) :
    (∃ e name, (assemble a source).2 = .error e ∧ e.cause = .labelDuplicate name) ↔
      source.hasLongLine = false ∧ ∃ f name,
        assembleLines source.lines (a.startOf source) = .error f ∧ f.error.cause = .labelDuplicate name := by
  constructor
  · rintro ⟨e, name, he, hcause⟩
    rcases assemble_eq_error he with hof | ⟨hshort, f, hlines, hsame⟩
    · rw [hcause] at hof
      cases hof
    · exact ⟨hshort, f, name, hlines, hsame.symm.trans hcause⟩
  · rintro ⟨hshort, f, name, hlines, hcause⟩
    rw [startOf] at hlines
    have htold : (assemble a source).2 = .error f.told := by simp [assemble, hshort, hlines]
    rcases f.cause_told with hsame | hended
    · exact ⟨f.told, name, htold, hsame.trans hcause⟩
    · exact absurd (hended ▸ htold) hmemory

/-- An assembly that has the memory it needs fails for a duplicate exactly if the labels of the lines it
    visits have one, where no single line has. -/
theorem assemble_duplicate_iff {a : Assembler} {source : Text}
    (hmemory : (assemble a source).2 ≠ .error (.exhausted .memory))
    (hlines : ∀ v ∈ (a.trace source).all, v.labels.Nodup) :
    (∃ e name, (assemble a source).2 = .error e ∧ e.cause = .labelDuplicate name) ↔
      ¬(a.trace source).labels.Nodup := by
  rw [assemble_duplicate_of_lines hmemory]
  cases hlong : source.hasLongLine with
  | true =>
      have hempty : (a.trace source).labels = [] := by
        rw [trace, if_pos hlong]
        rfl
      simp [hempty]
  | false =>
      have htrace : a.trace source = linesTrace source.lines (a.startOf source) := by
        rw [trace, if_neg (by simp [hlong])]
      rw [htrace] at hlines ⊢
      have hperm := linesDeeds_fronts source.lines (a.startOf source)
      have hfronts : ∀ front ∈ (linesDeeds source.lines (a.startOf source)).flatMap Deed.fronts,
          front.Nodup := by
        intro front hfront
        obtain ⟨v, hv, hmem⟩ := List.mem_flatMap.1 (hperm.mem_iff.1 hfront)
        rw [← Visit.labels_of_mem_fronts hmem]
        exact hlines v hv
      have hrun := (assembleLines_course source.lines (a.startOf source)).duplicate_iff
        (startOf_orderly a source) hfronts
      rw [declared_startOf, List.nil_append, hperm.flatten.nodup_iff, ← Trace.labels_eq_flatten] at hrun
      simpa using hrun

/-! ### Labels of calls -/

/-- The labels of a call start with its mark, as they do if they are written with the sign `@`, and are
    different from each other. So are the labels outside of calls, and none of them starts with the mark
    of a call. -/
structure Trace.Scoped (t : Trace) : Prop where
  marked : ∀ c ∈ t.calls, ∀ label ∈ c.labels, c.mark <+: label
  each : ∀ c ∈ t.calls, c.labels.Nodup
  outer : t.outer.Nodup
  apart : ∀ c ∈ t.calls, ∀ label ∈ t.outer, ¬c.mark <+: label

namespace Trace.Scoped

variable {t : Trace}

instance : Decidable t.Scoped :=
  decidable_of_iff ((∀ c ∈ t.calls, ∀ label ∈ c.labels, c.mark <+: label) ∧
    (∀ c ∈ t.calls, c.labels.Nodup) ∧ t.outer.Nodup ∧ ∀ c ∈ t.calls, ∀ label ∈ t.outer, ¬c.mark <+: label)
    ⟨fun h => ⟨h.1, h.2.1, h.2.2.1, h.2.2.2⟩, fun h => ⟨h.marked, h.each, h.outer, h.apart⟩⟩

theorem visit_nodup (h : t.Scoped) : ∀ v ∈ t.all, v.labels.Nodup := by
  intro v hv
  rcases List.mem_append.1 hv with houter | hcall
  · exact (List.nodup_flatMap.1 h.outer).1 v houter
  · obtain ⟨c, hc, hmem⟩ := List.mem_flatMap.1 hcall
    exact (List.nodup_flatMap.1 (h.each c hc)).1 v hmem

/-- All labels are different, exactly if no two calls share one. -/
theorem nodup_iff (h : t.Scoped) : t.labels.Nodup ↔ t.calls.Pairwise fun c d => ¬c.Shares d := by
  have hapart : ∀ label ∈ t.outer, ∀ other ∈ t.calls.flatMap Call.labels, label ≠ other := by
    rintro label houter other hother rfl
    obtain ⟨c, hc, hmem⟩ := List.mem_flatMap.1 hother
    exact h.apart c hc label houter (h.marked c hc label hmem)
  have hdisjoint (c d : Call) : ¬c.Shares d ↔ c.labels.Disjoint d.labels := by
    simp [Call.Shares, List.Disjoint]
  simp only [hdisjoint]
  rw [labels_eq, List.nodup_append, List.nodup_flatMap]
  constructor
  · rintro ⟨-, ⟨-, hcalls⟩, -⟩
    exact hcalls
  · intro hcalls
    exact ⟨h.outer, ⟨h.each, hcalls⟩, hapart⟩

end Trace.Scoped

/-- Labels of macro bodies collide in one way only. If bodies declare their labels with the sign `@`, each
    once, and the labels outside of them are different and start with no call's mark, an assembly that has
    the memory it needs fails for a duplicate exactly if two of its calls share a label. These are calls of
    one macro on one line of the source, or the name of one macro starts with the name and the line of the
    other call. -/
theorem assemble_hygienic {a : Assembler} {source : Text} (h : (a.trace source).Scoped)
    (hmemory : (assemble a source).2 ≠ .error (.exhausted .memory)) :
    ((∃ e name, (assemble a source).2 = .error e ∧ e.cause = .labelDuplicate name) ↔
      ¬(a.trace source).calls.Pairwise fun c d => ¬c.Shares d) ∧
    ∀ c ∈ (a.trace source).calls, ∀ d ∈ (a.trace source).calls, c.Shares d →
      c.name = d.name ∧ c.lineNo = d.lineNo ∨ c.stem <+: d.name ∨ d.stem <+: c.name := by
  refine ⟨?_, fun c hc d hd hshares => ?_⟩
  · rw [assemble_duplicate_iff hmemory h.visit_nodup, h.nodup_iff]
  · obtain ⟨label, hmem, hother⟩ := hshares
    exact Call.eq_or_continues (h.marked c hc label hmem) (h.marked d hd label hother)

/-- A source with a macro that calls another one twice. -/
def nestedSource : Text :=
  Text.ofString (".macro spin\n@top: j @top\n.endm\n.macro twice\nspin\nspin\n.endm\n" ++
    ".text\nmain: nop\nspin\ntwice\n")

/-- The calls of the macro on the last line collide. -/
theorem nestedSource_collides : (trace (Command.assembler []) nestedSource).Scoped ∧
    (trace (Command.assembler []) nestedSource).calls.map (fun c => (c.name, c.lineNo)) =
      [(Text.ofString "spin", 10), (Text.ofString "twice", 11), (Text.ofString "spin", 11),
        (Text.ofString "spin", 11)] ∧
    ¬(trace (Command.assembler []) nestedSource).calls.Pairwise fun c d => ¬c.Shares d := by
  decide +kernel

theorem nestedSource_remembers :
    (assemble (Command.assembler []) nestedSource).2 ≠ .error (.exhausted .memory) := by
  decide +kernel

theorem assemble_hygienic_nestedSource : (trace (Command.assembler []) nestedSource).Scoped ∧
    ∃ e name, (assemble (Command.assembler []) nestedSource).2 = .error e ∧
      e.cause = .labelDuplicate name := by
  obtain ⟨hscoped, -, hshared⟩ := nestedSource_collides
  exact ⟨hscoped, (assemble_hygienic hscoped nestedSource_remembers).1.2 hshared⟩

/-- The sign does not keep all calls apart. -/
theorem assemble_not_always_hygienic : ¬∀ source, (trace (Command.assembler []) source).Scoped →
    ∀ e, (assemble (Command.assembler []) source).2 = .error e →
      ∀ name, e.cause ≠ .labelDuplicate name := by
  intro h
  obtain ⟨hscoped, -, hshared⟩ := nestedSource_collides
  have htwice : ¬(trace (Command.assembler []) nestedSource).labels.Nodup :=
    fun hnodup => hshared (hscoped.nodup_iff.1 hnodup)
  obtain ⟨e, name, he, hcause⟩ :=
    (assemble_duplicate_iff nestedSource_remembers hscoped.visit_nodup).2 htwice
  exact h nestedSource hscoped e he name hcause

end Assembler

end VectorRisc
