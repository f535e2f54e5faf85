/-
Module: VectorRisc.Proofs.Assembler.Binding
Layer: Proofs
Purpose: Where labels are bound. A label waits until its segment goes on: it is bound to the start of the
  next item there, behind the padding of that item, or to the end of what the segment holds if another
  segment directive or the end of the source comes first.
Imports: Mathlib.Tactic, VectorRisc.Command.Host, VectorRisc.Proofs.Assembler.Hygiene,
  VectorRisc.Proofs.Assembler.Items
Trusted boundary: none
Main exports: Assembler.Deed.places, Assembler.Binds, Assembler.Deed.Turns, Assembler.Deed.turns,
  Assembler.Course.binds, Assembler.assemble_binds
Open obligations: none
-/
import Mathlib.Tactic
import VectorRisc.Command.Host
import VectorRisc.Proofs.Assembler.Hygiene
import VectorRisc.Proofs.Assembler.Items

namespace VectorRisc

namespace Assembler

/-! ### Items and segments of deeds -/

namespace Deed

/-- The labels that the deed declares. -/
def marks (d : Deed) : List Mark :=
  match d.act with
  | .labels text => (leadingLabels text).1
  | _ => []

/-- What the deed writes: the words of an instruction line, or items of data. -/
def places (d : Deed) : List Item :=
  match d.act with
  | .instruction line =>
    match d.state.codedLine line with
    | .ok c => [⟨d.state.segment, d.state.filled, none, wordBytes c.codes⟩]
    | .error _ => []
  | _ => d.items

/-- The deed is a segment directive. -/
def leaves (d : Deed) : Bool :=
  match d.act with
  | .directive name _ _ => (segmentOf? name).isSome
  | _ => false

end Deed

/-- The labels that deeds declare, each with its segment and the deeds behind it. -/
def declarations : List Deed → List (Mark × Segment × List Deed)
  | [] => []
  | d :: rest => d.marks.map (fun mark => (mark, d.state.segment, rest)) ++ declarations rest

/-- Where a label that waits in a segment is bound in an object, going by the deeds that follow: at the
    first item that one of them writes, and otherwise at the end of what the segment holds when a segment
    directive or the end of the source is reached. -/
inductive Binds (file : ObjectFile) (segment : Segment) : List Deed → Nat → Prop where
  | waits {d : Deed} {rest : List Deed} {n : Nat} (hplaces : d.places = []) (hleaves : d.leaves = false)
      (h : Binds file segment rest n) : Binds file segment (d :: rest) n
  | item {d : Deed} {rest : List Deed} {item : Item} (hfirst : d.places.head? = some item)
      (hsegment : item.segment = segment) (hstands : item.Stands (file.sections.get segment).data) :
      Binds file segment (d :: rest) item.offset
  | leaves {d : Deed} {rest : List Deed} (hleaves : d.leaves = true) :
      Binds file segment (d :: rest) (d.state.sections.get segment).size
  | ends : Binds file segment [] (file.sections.get segment).data.size

/-- The symbol is that of a declared label. -/
def Labels (file : ObjectFile) : Mark × Segment × List Deed → Symbol → Prop
  | (mark, segment, rest), sym =>
    sym.label = mark.name ∧ sym.kind = SymbolKind.ofSegment segment ∧
      Binds file segment rest sym.position.toNat

/-! ### Waiting labels -/

/-- The labels that wait are bound at an offset. -/
structure BoundAt (s : State) (n : Nat) (t : State) : Prop where
  symbols : t.symbols.toList = s.symbols.toList ++ s.pending.map (State.symbolOf s.segment (UInt64.ofNat n))
  pending : t.pending = []

/-- Labels go on waiting, perhaps with some more. -/
structure Waits (s : State) (marks : List Mark) (t : State) : Prop where
  symbols : t.symbols = s.symbols
  pending : t.pending = s.pending ++ marks
  segment : t.segment = s.segment

theorem boundAt_padTo_emit (s : State) (align : Nat) (bytes : ByteArray) :
    BoundAt s (s.padTo align).filled ((s.padTo align).emit bytes) :=
  ⟨Array.toList_append, rfl⟩

/-- Nothing is bound where no label waits. -/
theorem emitScalars_pending {s : State} (h : s.pending = []) (align : Nat) (items : List (List UInt8)) :
    (s.emitScalars align items).symbols.toList = s.symbols.toList ∧
      (s.emitScalars align items).pending = [] := by
  induction items generalizing s with
  | nil => exact ⟨rfl, h⟩
  | cons bytes rest ih =>
      have hbound := boundAt_padTo_emit s align (Bytes.ofList bytes)
      obtain ⟨hsymbols, hpending⟩ := ih hbound.pending
      refine ⟨?_, hpending⟩
      rw [State.emitScalars, hsymbols, hbound.symbols, h, List.map_nil, List.append_nil]

theorem boundAt_emitScalars (s : State) (align : Nat) (bytes : List UInt8) (rest : List (List UInt8)) :
    BoundAt s (s.padTo align).filled (s.emitScalars align (bytes :: rest)) := by
  have hbound := boundAt_padTo_emit s align (Bytes.ofList bytes)
  obtain ⟨hsymbols, hpending⟩ := emitScalars_pending hbound.pending align rest
  exact ⟨hsymbols.trans hbound.symbols, hpending⟩

/-! ### One deed -/

/-- What a deed means for the labels that wait. -/
inductive Deed.Turns (d : Deed) (t : State) : Prop where
  | waits (hplaces : d.places = []) (hleaves : d.leaves = false) (h : Waits d.state d.marks t)
  | item {item : Item} (hmarks : d.marks = []) (hfirst : d.places.head? = some item)
      (h : BoundAt d.state item.offset t)
  | leaves (hmarks : d.marks = []) (hleaves : d.leaves = true) (h : BoundAt d.state d.state.filled t)

/-- Before the first segment directive no label waits. -/
theorem Orderly.pending_eq_nil {s : State} (hs : Orderly s) (hstarted : s.started = false) :
    s.pending = [] := by
  by_contra hne
  have hon := hs.started (by simp [State.declared, hne])
  rw [hstarted] at hon
  cases hon

/-- A segment directive binds the labels that wait. -/
theorem boundAt_enter {s : State} (hs : Orderly s) (segment : Segment) :
    BoundAt s s.filled (s.enter segment) := by
  cases hstarted : s.started with
  | true =>
      cases hcode : segment.isCode <;>
      · simp only [State.enter, hstarted, hcode, if_true, Bool.false_eq_true, if_false]
        exact ⟨Array.toList_append, rfl⟩
  | false =>
      have hpending := hs.pending_eq_nil hstarted
      cases hcode : segment.isCode <;>
      · simp only [State.enter, hstarted, hcode, if_true, Bool.false_eq_true, if_false]
        exact ⟨by simp [hpending], hpending⟩

/-- A directive of data binds the labels that wait to its first item, if it writes one. -/
theorem Writes.turns {s t : State} {name args : Text} {labelled : Bool} {d : DataDirective}
    (hname : dataDirective? name = some d) (hdata : s.segment.isCode = false) (h : Writes s args d t) :
    (⟨s, .directive name args labelled⟩ : Deed).Turns t := by
  have hplaces : (⟨s, .directive name args labelled⟩ : Deed).places = s.dataItems name args := by
    simp [Deed.places, Deed.items, hdata]
  have hleaves : (⟨s, .directive name args labelled⟩ : Deed).leaves = false := by
    rw [Deed.leaves, Option.isSome_eq_false_iff, Option.isNone_iff_eq_none]
    by_contra hsome
    obtain ⟨segment, hsegment⟩ := Option.ne_none_iff_exists'.1 hsome
    rw [dataDirective?_of_segmentOf? hsegment] at hname
    cases hname
  rw [State.dataItems, hname] at hplaces
  cases h with
  | aligns => exact .waits hplaces hleaves ⟨rfl, (List.append_nil _).symm, rfl⟩
  | @zeros n hn =>
      simp only [hn] at hplaces
      refine .item rfl (by rw [hplaces, List.head?_cons]) ?_
      have hbound := boundAt_padTo_emit s (s.alignment 1) (Bytes.zeros n)
      exact ⟨hbound.symbols, hbound.pending⟩
  | @text encoding t bytes ht hbytes =>
      simp only [ht, hbytes] at hplaces
      refine .item rfl (by rw [hplaces, List.head?_cons]) ?_
      have hbound := boundAt_padTo_emit s (s.alignment encoding.align) (Bytes.ofList bytes)
      exact ⟨hbound.symbols, hbound.pending⟩
  | repeatsNone hn =>
      have hnone : (⟨s, .directive name args labelled⟩ : Deed).places = [] := by
        rw [hplaces, hn]
        cases s.lastScalar <;> rfl
      exact .waits hnone hleaves ⟨rfl, (List.append_nil _).symm, rfl⟩
  | repeats hn hblock =>
      simp only [hn, hblock, copyItems] at hplaces
      exact .item rfl (by rw [hplaces, List.head?_cons]) (boundAt_padTo_emit s _ _)
  | @scalars kind items hitems =>
      simp only [hitems] at hplaces
      cases items with
      | nil => exact .waits hplaces hleaves ⟨rfl, (List.append_nil _).symm, rfl⟩
      | cons bytes rest =>
          refine .item rfl (by rw [hplaces, State.scalarItems, List.head?_cons]) ?_
          have hbound := boundAt_emitScalars s (s.alignment kind.size) bytes rest
          exact ⟨hbound.symbols, hbound.pending⟩

/-- A deed leaves the labels that wait, binds them to what it writes first, or binds them on leaving the
    segment. -/
theorem Deed.turns {d : Deed} {t : State} (h : d.result = .ok t) (hs : Orderly d.state) : d.Turns t := by
  obtain ⟨s, act⟩ := d
  cases act with
  | labels text =>
      obtain rfl := declareAll_eq_ok h
      exact .waits rfl rfl ⟨rfl, rfl, rfl⟩
  | instruction line =>
      obtain ⟨c, hc, rfl⟩ := instruction_eq_ok h
      refine .item rfl (by simp only [places, hc, List.head?_cons]; rfl) ?_
      exact ⟨Array.toList_append, rfl⟩
  | directive name args labelled =>
      cases hsegment : segmentOf? name with
      | some segment =>
          obtain rfl : t = s.enter segment := by
            rw [result, Act.run, State.directive, hsegment] at h
            simp only at h
            split at h
            · cases h
            · split at h
              · cases h
              · exact (Except.ok.inj h).symm
          exact .leaves rfl (by simp [leaves, hsegment]) (boundAt_enter hs segment)
      | none =>
          have hleaves : (⟨s, .directive name args labelled⟩ : Deed).leaves = false := by
            simp [leaves, hsegment]
          have hnone (hname : dataDirective? name = none) :
              (⟨s, .directive name args labelled⟩ : Deed).places = [] := by
            simp [places, items, State.dataItems, hname]
          cases directive_cases h with
          | enters segment hname =>
              rw [hsegment] at hname
              cases hname
          | kernelStart hname | entry hname | externs hname =>
              exact .waits (hnone hname) hleaves ⟨rfl, (List.append_nil _).symm, rfl⟩
          | globals hname labels =>
              obtain ⟨globals, hsame⟩ := foldl_addGlobal_eq labels s
              rw [hsame]
              exact .waits (hnone hname) hleaves ⟨rfl, (List.append_nil _).symm, rfl⟩
          | data hdata hname hwrites => exact hwrites.turns hname hdata

/-- The items that a deed writes stand in the current segment. -/
theorem Deed.stands {d : Deed} {t : State} (h : d.result = .ok t) :
    ∀ item ∈ d.places, item.segment = d.state.segment ∧ item.Stands (t.sections.get item.segment) := by
  have hlays := Deed.lays h
  obtain ⟨s, act⟩ := d
  cases act with
  | labels => simp [places, items]
  | directive name args labelled =>
      intro item hitem
      simp only [places, items] at hitem
      split at hitem
      · cases hitem
      · rename_i hdata
        have hsegment := segment_dataItems s name args item hitem
        have hthere := (hlays item.segment (by simpa [hsegment] using hdata)).stands item (by
          simpa [items, hdata] using hitem)
        exact ⟨hsegment, hthere⟩
  | instruction line =>
      obtain ⟨c, hc, rfl⟩ := instruction_eq_ok h
      intro item hitem
      simp only [places, hc, List.mem_singleton] at hitem
      subst hitem
      refine ⟨rfl, s.sections.get s.segment, ByteArray.empty, ?_, rfl⟩
      rw [place_sections, if_pos rfl, ByteArray.append_empty]

theorem Item.Stands.offset_le {item : Item} {image : ByteArray} (h : item.Stands image) :
    item.offset ≤ image.size := by
  obtain ⟨before, after, rfl, hoffset⟩ := h
  rw [ByteArray.size_append, ByteArray.size_append]
  omega

/-! ### Runs -/

theorem Passes.waits {s t : State} (h : Relation.ReflTransGen Passes s t) : Waits s [] t := by
  induction h with
  | refl => exact ⟨rfl, (List.append_nil _).symm, rfl⟩
  | tail _ hstep ih =>
      obtain ⟨hsymbols, hpending, hsegment⟩ := ih
      cases hstep with
      | reads => exact ⟨hsymbols, hpending, hsegment⟩
      | aside haside => cases haside <;> exact ⟨hsymbols, hpending, hsegment⟩

/-- The end of a source binds the labels that wait. -/
theorem boundAt_finish {s : State} (hs : Orderly s) : BoundAt s s.filled s.finish.1 := by
  cases hstarted : s.started with
  | true =>
      simp only [State.finish, hstarted, if_true]
      exact ⟨Array.toList_append, rfl⟩
  | false =>
      have hpending := hs.pending_eq_nil hstarted
      simp only [State.finish, hstarted, Bool.false_eq_true, if_false]
      exact ⟨by simp [hpending], hpending⟩

section Runs

variable {file : ObjectFile} {s t : State}

/-- The symbols of labels that are bound where they should be. -/
theorem labels_of_binds {n : Nat} {deeds : List Deed} (hn : n ≤ Bytes.lengthMax)
    (hbinds : Binds file s.segment deeds n) :
    List.Forall₂ (Labels file) (s.pending.map fun mark => (mark, s.segment, deeds))
      (s.pending.map (State.symbolOf s.segment (UInt64.ofNat n))) := by
  have hposition : (UInt64.ofNat n).toNat = n :=
    UInt64.toNat_ofNat_of_lt' (lt_of_le_of_lt hn (by decide))
  rw [List.forall₂_map_left_iff, List.forall₂_map_right_iff, List.forall₂_same]
  intro mark _
  refine ⟨rfl, rfl, ?_⟩
  rw [State.symbolOf, hposition]
  exact hbinds

/-- Labels that are bound by later deeds have waited at one that writes nothing. -/
theorem labels_of_waits {d : Deed} {rest : List Deed} (hplaces : d.places = []) (hleaves : d.leaves = false)
    {segment : Segment} {marks : List Mark} {others : List (Mark × Segment × List Deed)}
    {symbols : List Symbol}
    (h : List.Forall₂ (Labels file) (marks.map (fun mark => (mark, segment, rest)) ++ others) symbols) :
    List.Forall₂ (Labels file) (marks.map (fun mark => (mark, segment, d :: rest)) ++ others) symbols := by
  induction marks generalizing symbols with
  | nil => exact h
  | cons mark marks ih =>
      cases h with
      | cons hfirst hothers =>
          obtain ⟨hlabel, hkind, hbinds⟩ := hfirst
          exact .cons ⟨hlabel, hkind, .waits hplaces hleaves hbinds⟩ (ih hothers)

/-- The run binds the labels that wait and those that its deeds declare, all of them by the end. -/
theorem Course.binds {deeds : List Deed} (h : Course Passes s deeds (.ok t)) (hs : Orderly s)
    (hshort : Short t) (hfile : ∀ seg, (file.sections.get seg).data = t.sections.get seg) :
    ∃ more, t.finish.1.symbols.toList = s.symbols.toList ++ more ∧
      List.Forall₂ (Labels file)
        (s.pending.map (fun mark => (mark, s.segment, deeds)) ++ declarations deeds) more := by
  induction h using Course.ok_induction with
  | @ends s hpasses =>
      obtain ⟨hsymbols, hpending, hsegment⟩ := Passes.waits hpasses
      rw [List.append_nil] at hpending
      rw [← hsymbols, ← hpending, ← hsegment]
      refine ⟨_, (boundAt_finish (hs.same (SameLabels.passes hpasses))).symbols, ?_⟩
      rw [declarations, List.append_nil]
      refine labels_of_binds (hshort t.segment) ?_
      have hends : Binds file t.segment [] (file.sections.get t.segment).data.size := .ends
      rwa [hfile] at hends
  | @does s u d rest hpasses hdeed hrest ih =>
      obtain ⟨hsymbols, hpending, hsegment⟩ := Passes.waits hpasses
      rw [List.append_nil] at hpending
      rw [← hsymbols, ← hpending, ← hsegment, declarations]
      have horderly := hs.same (SameLabels.passes hpasses)
      obtain ⟨more, hmore, hlabels⟩ := ih (Act.declared hdeed horderly).2
      -- labels that the deed binds come first, and no other label waits behind it
      have hbound {n : Nat} (hmarks : d.marks = []) (hn : n ≤ (u.sections.get d.state.segment).size)
          (hbinds : Binds file d.state.segment (d :: rest) n) (hu : BoundAt d.state n u) :
          ∃ more, t.finish.1.symbols.toList = d.state.symbols.toList ++ more ∧
            List.Forall₂ (Labels file) (d.state.pending.map (fun mark => (mark, d.state.segment, d :: rest)) ++
              (d.marks.map (fun mark => (mark, d.state.segment, rest)) ++ declarations rest)) more := by
        have hsize := le_trans (hrest.moves.size_le d.state.segment) (hshort d.state.segment)
        rw [hu.symbols, List.append_assoc] at hmore
        rw [hu.pending, List.map_nil, List.nil_append] at hlabels
        rw [hmarks, List.map_nil, List.nil_append]
        exact ⟨_, hmore, List.rel_append (labels_of_binds (hn.trans hsize) hbinds) hlabels⟩
      cases Deed.turns hdeed horderly with
      | waits hplaces hleaves hwaits =>
          rw [hwaits.symbols] at hmore
          rw [hwaits.pending, hwaits.segment, List.map_append, List.append_assoc] at hlabels
          exact ⟨more, hmore, labels_of_waits hplaces hleaves hlabels⟩
      | @item item hmarks hfirst hu =>
          obtain ⟨hhere, hstands⟩ := Deed.stands hdeed item (List.mem_of_mem_head? hfirst)
          rw [hhere] at hstands
          obtain ⟨grown, hgrown⟩ := hrest.moves.grows d.state.segment
          have hthere : item.Stands (file.sections.get d.state.segment).data := by
            rw [hfile, hgrown]
            exact hstands.append grown
          exact hbound hmarks hstands.offset_le (.item hfirst hhere hthere) hu
      | leaves hmarks hleaves hu =>
          exact hbound hmarks ((Act.moves hdeed).size_le d.state.segment) (.leaves hleaves) hu

end Runs

/-! ### Whole sources -/

/-- Labels are bound to the next item. If a source is assembled, then the symbols of the object are those of
    the labels that its deeds declare, in order; each of them is of the segment it is declared in, and its
    position there is where the first item behind it starts, or the end of the segment if the segment is
    left before or the source ends. -/
theorem assemble_binds {a : Assembler} {source : Text} {file : ObjectFile}
    (h : (assemble a source).2 = .ok file) :
    List.Forall₂ (Labels file) (declarations (linesDeeds source.lines (a.startOf source))) file.symbols := by
  obtain ⟨s, hlines, hshort, hfinish, -⟩ := assemble_eq_ok h
  have hcourse := assembleLines_course source.lines (a.startOf source)
  rw [startOf, hlines, ← startOf] at hcourse
  obtain ⟨more, hmore, hlabels⟩ := hcourse.binds (startOf_orderly a source) hshort (finish_eq_ok hfinish).2
  have hall : s.finish.1.symbols.toList = more := hmore
  rw [(finished_of_finish hfinish).symbols, State.scopedSymbols, hall, List.forall₂_map_right_iff]
  refine hlabels.imp fun declaration sym hlabel => ?_
  -- the scope that a symbol gets at the end is the only thing that changes
  split <;> exact hlabel

/-- A source with labels before an alignment, at the end of a segment and at the end of the source. -/
def waitingSource : Text :=
  Text.ofString (".data\n.byte 1\nfirst:\n.align 8\nsecond: .half 2\nlast:\n.text\nstart: nop\nstop:\n")

theorem assemble_binds_waitingSource : ∃ file, (assemble (Command.assembler []) waitingSource).2 = .ok file ∧
    List.Forall₂ (Labels file)
      (declarations (linesDeeds waitingSource.lines (startOf (Command.assembler []) waitingSource)))
      file.symbols ∧
    file.symbols.map (fun sym => (sym.label, sym.kind.segment, sym.position)) =
      [(Text.ofString "first", .data, 8), (Text.ofString "second", .data, 8),
        (Text.ofString "last", .data, 10), (Text.ofString "start", .text, 0),
        (Text.ofString "stop", .text, 4)] := by
  have hrun : ((assemble (Command.assembler []) waitingSource).2.toOption.map fun file =>
      file.symbols.map fun sym => (sym.label, sym.kind.segment, sym.position)) =
      some [(Text.ofString "first", .data, 8), (Text.ofString "second", .data, 8),
        (Text.ofString "last", .data, 10), (Text.ofString "start", .text, 0),
        (Text.ofString "stop", .text, 4)] := by
    decide +kernel
  cases h : (assemble (Command.assembler []) waitingSource).2 with
  | error e =>
      rw [h] at hrun
      cases hrun
  | ok file =>
      rw [h] at hrun
      exact ⟨file, rfl, assemble_binds h, Option.some.inj hrun⟩

end Assembler

end VectorRisc
