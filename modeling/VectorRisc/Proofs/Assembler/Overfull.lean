/-
Module: VectorRisc.Proofs.Assembler.Overfull
Layer: Proofs
Purpose: Segments that become too large. Space and repetitions are refused where there is no room for them,
  but the padding in front of them is not counted, and scalars, strings and instructions are written without
  a look at the room. So a segment of an object can be larger than the largest that is to be built, and only
  by a deed that writes what is not tested.
Imports: Mathlib.Tactic, VectorRisc.Command.Host, VectorRisc.Proofs.Assembler.Repetition,
  VectorRisc.Proofs.Assembler.Tiling, VectorRisc.Proofs.Assembler.Trace
Trusted boundary: none
Main exports: Assembler.Deed.Untested, Assembler.Deed.untested_of_crosses, Assembler.Course.exists_crosses,
  Assembler.assemble_overfull_iff, Assembler.assemble_not_always_within
Open obligations: none
-/
import Mathlib.Tactic
import VectorRisc.Command.Host
import VectorRisc.Proofs.Assembler.Repetition
import VectorRisc.Proofs.Assembler.Tiling
import VectorRisc.Proofs.Assembler.Trace

namespace VectorRisc

namespace Assembler

/-! ### Room -/

/-- What is tested for room has it, in a segment that is not too large already. -/
theorem add_le_of_fits {s : State} {number stride : Nat} (h : s.fits number stride = .ok ())
    (hs : s.filled ≤ segmentMax) : s.filled + number * stride ≤ segmentMax := by
  simp only [State.fits, Nat.min_eq_left hs] at h
  split at h
  · cases h
  · rename_i hroom
    simp only [Bool.and_eq_true, decide_eq_true_eq, not_and, Nat.not_lt] at hroom
    rcases Nat.eq_zero_or_pos stride with rfl | hpos
    · rwa [Nat.mul_zero, Nat.add_zero]
    · have hnumber := (Nat.le_div_iff_mul_le hpos).1 (hroom (Nat.ne_of_gt hpos))
      omega

/-- The deed writes what is not tested for room: an instruction line, scalars or a string, or the padding in
    front of space or of a repetition that there is room for. -/
inductive Deed.Untested : Deed → Prop where
  | code (s : State) (line : Text) : Untested ⟨s, .instruction line⟩
  | scalars (s : State) {name : Text} (args : Text) (labelled : Bool) {kind : Scalar}
      (hname : dataDirective? name = some (.scalar kind)) : Untested ⟨s, .directive name args labelled⟩
  | string (s : State) {name : Text} (args : Text) (labelled : Bool) {encoding : Encoding}
      (hname : dataDirective? name = some (.string encoding)) : Untested ⟨s, .directive name args labelled⟩
  | space {s : State} {name args : Text} (labelled : Bool) {n : Nat}
      (hname : dataDirective? name = some .space) (hn : count args = .ok n)
      (hroom : s.filled + n ≤ segmentMax) : Untested ⟨s, .directive name args labelled⟩
  | again {s : State} {name args : Text} (labelled : Bool) {n : Nat} {block : List UInt8}
      (hname : dataDirective? name = some .again) (hn : count args = .ok n)
      (hblock : s.lastScalar = some block)
      (hroom : s.filled + n * Bytes.roundUpNat block.length (s.alignment block.length) ≤ segmentMax) :
      Untested ⟨s, .directive name args labelled⟩

theorem get_emitScalars_of_ne {s : State} {seg : Segment} (h : seg ≠ s.segment) (align : Nat)
    (items : List (List UInt8)) : (s.emitScalars align items).sections.get seg = s.sections.get seg := by
  induction items generalizing s with
  | nil => rfl
  | cons bytes rest ih =>
      have hfirst := get_padTo_emit s align (Bytes.ofList bytes) seg
      rw [if_neg h] at hfirst
      exact (ih (s := (s.padTo align).emit (Bytes.ofList bytes)) h).trans hfirst

/-- A deed writes to the current segment alone. -/
theorem Deed.get_of_ne {d : Deed} {t : State} (h : d.result = .ok t) {seg : Segment}
    (hne : seg ≠ d.state.segment) : t.sections.get seg = d.state.sections.get seg := by
  obtain ⟨s, act⟩ := d
  cases act with
  | labels text =>
      obtain rfl := declareAll_eq_ok h
      rfl
  | instruction line =>
      obtain ⟨c, -, rfl⟩ := instruction_eq_ok h
      rw [place_sections, if_neg hne, ByteArray.append_empty]
  | directive name args labelled =>
      cases directive_cases h with
      | enters segment =>
          simp only [State.enter]
          split <;> split <;> rfl
      | kernelStart | entry | externs => rfl
      | globals _ labels =>
          obtain ⟨globals, hsame⟩ := foldl_addGlobal_eq labels s
          rw [hsame]
      | data _ _ hwrites =>
          cases hwrites with
          | aligns | repeatsNone => rfl
          | zeros | text | repeats => exact (get_padTo_emit s _ _ seg).trans (if_neg hne)
          | scalars => exact get_emitScalars_of_ne hne _ _

/-- A deed that takes a segment over the largest size writes what is not tested. -/
theorem Deed.untested_of_crosses {d : Deed} {t : State} (h : d.result = .ok t)
    (hbefore : d.state.filled ≤ segmentMax) (hafter : segmentMax < (t.sections.get d.state.segment).size) :
    d.Untested := by
  have hgrown (hsame : t.sections = d.state.sections) : False := by
    rw [hsame] at hafter
    exact Nat.not_lt.2 hbefore hafter
  obtain ⟨s, act⟩ := d
  cases act with
  | labels text =>
      obtain rfl := declareAll_eq_ok h
      exact (hgrown rfl).elim
  | instruction line => exact .code s line
  | directive name args labelled =>
      cases directive_cases h with
      | enters segment =>
          refine (hgrown ?_).elim
          simp only [State.enter]
          split <;> split <;> rfl
      | kernelStart | entry | externs => exact (hgrown rfl).elim
      | globals _ labels =>
          obtain ⟨globals, hsame⟩ := foldl_addGlobal_eq labels s
          exact (hgrown (by rw [hsame])).elim
      | data _ hname hwrites =>
          obtain ⟨hstarted, hdata, -⟩ := writes_of_directive hname h
          rw [result, Act.run, directive_eq_data hname hstarted hdata, State.data, hname] at h
          cases hwrites with
          | aligns | repeatsNone => exact (hgrown rfl).elim
          | text => exact .string s args labelled hname
          | scalars => exact .scalars s args labelled hname
          | @zeros n hn =>
              simp only [State.spaceDirective, hn] at h
              split at h
              · cases h
              · rename_i hfits
                have hroom := add_le_of_fits hfits hbefore
                rw [Nat.mul_one] at hroom
                exact .space labelled hname hn hroom
          | repeats hn hblock =>
              rw [State.repeatDirective, hn, hblock] at h
              simp only at h
              split at h
              · cases h
              · rename_i hfits
                exact .again labelled hname hn hblock (add_le_of_fits hfits hbefore)

/-! ### Runs -/

/-- A run that takes a segment over a size does so in one of its deeds, which writes to that segment. -/
theorem Course.exists_crosses {s t : State} {deeds : List Deed} (h : Course Passes s deeds (.ok t))
    {seg : Segment} {most : Nat} (hs : (s.sections.get seg).size ≤ most)
    (ht : most < (t.sections.get seg).size) :
    ∃ d ∈ deeds, ∃ u, d.result = .ok u ∧ d.state.segment = seg ∧ d.state.filled ≤ most ∧
      most < (u.sections.get seg).size := by
  induction h using Course.ok_induction with
  | ends hsteps =>
      rw [(Passes.sameObject hsteps).sections] at ht
      exact absurd ht (Nat.not_lt.2 hs)
  | @does s u d rest hsteps hdeed _ ih =>
      have hreached : (d.state.sections.get seg).size ≤ most := by
        rwa [(Passes.sameObject hsteps).sections]
      rcases Nat.lt_or_ge most (u.sections.get seg).size with hover | hwithin
      · -- the segment grows in this deed, so it is the current one
        have hhere : d.state.segment = seg := by
          by_contra hother
          rw [Deed.get_of_ne hdeed (Ne.symm hother)] at hover
          omega
        refine ⟨d, List.mem_cons_self, u, hdeed, hhere, ?_, hover⟩
        rwa [State.filled, hhere]
      · obtain ⟨later, hlater, hcrosses⟩ := ih hwithin
        exact ⟨later, List.mem_cons_of_mem _ hlater, hcrosses⟩

/-- What a deed of a run has written is there at the end. -/
theorem Course.size_le_of_mem {s t : State} {deeds : List Deed} (h : Course Passes s deeds (.ok t))
    {d : Deed} (hd : d ∈ deeds) {u : State} (hu : d.result = .ok u) (seg : Segment) :
    (u.sections.get seg).size ≤ (t.sections.get seg).size := by
  induction h using Course.ok_induction with
  | ends => cases hd
  | does _ hdeed hrest ih =>
      rcases List.mem_cons.1 hd with rfl | hlater
      · obtain rfl := Except.ok.inj (hu.symm.trans hdeed)
        exact hrest.moves.size_le seg
      · exact ih hlater

/-! ### A source that is too large -/

/-- Space for all of a data segment, and a byte more. -/
def fullSource : Text := Text.ofString ".data\n.space 268435456\n.byte 1\n"

/-- The state in which a line comes down to its directive. -/
def State.numbered (s : State) (text : Text) : State :=
  { s.reading text with equates := s.equates.set lineEquate (Numeral.natural 10 (s.lineNo + 1)) }

section FullSource

variable {s : State}

/-- The lines come down to their directives whatever names there are, as long as none is that of a macro. -/
theorem assembleSourceLine_space (hmacros : s.macros = []) (hopen : s.openMacro = none) :
    assembleSourceLine s (Text.ofString ".space 268435456") =
      (s.numbered (Text.ofString ".space 268435456")).directive (Text.ofString ".space")
        (Text.ofString "268435456") false := by
  cases s
  cases hmacros
  cases hopen
  rfl

theorem assembleSourceLine_byte (hmacros : s.macros = []) (hopen : s.openMacro = none) :
    assembleSourceLine s (Text.ofString ".byte 1") =
      (s.numbered (Text.ofString ".byte 1")).directive (Text.ofString ".byte") (Text.ofString "1") false := by
  cases s
  cases hmacros
  cases hopen
  rfl

theorem directive_space (hstarted : s.started = true) (hdata : s.segment.isCode = false)
    (hempty : s.filled = 0) :
    s.directive (Text.ofString ".space") (Text.ofString "268435456") false =
      .ok { (s.padTo (s.alignment 1)).emit (Bytes.zeros segmentMax) with lastScalar := none } := by
  have hcount : count (Text.ofString "268435456") = .ok segmentMax := rfl
  have hfits : s.fits segmentMax 1 = .ok () := by
    simp [State.fits, hempty]
  have hname : dataDirective? (Text.ofString ".space") = some .space := rfl
  rw [directive_eq_data hname hstarted hdata, State.data, hname]
  simp only [State.spaceDirective, hcount, hfits]

theorem directive_byte (hstarted : s.started = true) (hdata : s.segment.isCode = false) :
    s.directive (Text.ofString ".byte") (Text.ofString "1") false =
      .ok { s.emitScalars (s.alignment 1) [[1]] with lastScalar := some [1] } := by
  have hname : dataDirective? (Text.ofString ".byte") = some (.scalar .byte) := rfl
  rw [directive_eq_data hname hstarted hdata]
  rfl

theorem filled_padTo_one (s : State) : (s.padTo 1).filled = s.filled := by
  rw [filled_padTo, State.padding, Nat.mod_one, Nat.add_zero]

/-- The end of a source that refers to no label is an object. -/
theorem exists_of_finish (hglobals : s.globals = []) (hrequests : s.requests = #[])
    (hentry : s.entry = none) : ∃ file, s.finish.2 = .ok file := by
  have hglobal (u : State) (hu : u.globals = []) : u.missingGlobal? = none := by
    rw [State.missingGlobal?, hu, List.map_nil, Text.sort, List.mergeSort_nil, List.findSome?_nil]
  have hlabel (u : State) (hu : u.requests = #[]) : u.missingLabel? = none := by
    rw [State.missingLabel?, hu]
    rfl
  cases hstarted : s.started with
  | true =>
      simp only [State.finish, hstarted, if_true, hglobal s.bindLabels hglobals,
        hlabel s.bindLabels hrequests, Option.or_none]
      have hentry : s.bindLabels.entry = none := hentry
      rw [hentry]
      exact ⟨_, rfl⟩
  | false =>
      simp only [State.finish, hstarted, Bool.false_eq_true, if_false, hglobal s hglobals,
        hlabel s hrequests, Option.or_none, hentry]
      exact ⟨_, rfl⟩

/-- The source is assembled, with a byte more in its data segment than there is room for. -/
theorem assemble_fullSource : ∃ file, (assemble (Command.assembler []) fullSource).2 = .ok file ∧
    (file.sections.get .data).data.size = segmentMax + 1 := by
  -- the zeros are never looked at, so they are kept apart from the state that holds them
  obtain ⟨zeros, hzeros⟩ : ∃ zeros, zeros = Bytes.zeros segmentMax := ⟨_, rfl⟩
  have hmany : zeros.size = segmentMax := by rw [hzeros, Bytes.size_zeros]
  let start := startOf (Command.assembler []) fullSource
  let first : State := (start.numbered (Text.ofString ".data")).enter .data
  have hfirst : assembleSourceLine start (Text.ofString ".data") = .ok first := rfl
  let before := first.numbered (Text.ofString ".space 268435456")
  let second : State := { (before.padTo 1).emit zeros with lastScalar := none }
  have hsecond : assembleSourceLine first (Text.ofString ".space 268435456") = .ok second := by
    rw [assembleSourceLine_space rfl rfl, directive_space rfl rfl rfl, ← hzeros]
    rfl
  let behind := second.numbered (Text.ofString ".byte 1")
  let third : State := { (behind.padTo 1).emit (Bytes.ofList [1]) with lastScalar := some [1] }
  have hthird : assembleSourceLine second (Text.ofString ".byte 1") = .ok third := by
    rw [assembleSourceLine_byte rfl rfl, directive_byte rfl rfl]
    rfl
  have hlines : assembleLines fullSource.lines start = .ok third := by
    have hcut : fullSource.lines =
        [Text.ofString ".data", Text.ofString ".space 268435456", Text.ofString ".byte 1"] := rfl
    rw [hcut]
    simp only [assembleLines, hfirst, hsecond, hthird]
  have hempty : before.filled = 0 := rfl
  have hfull : behind.filled = segmentMax := by
    have hemit := filled_emit (before.padTo 1) zeros
    rw [filled_padTo_one, hempty, hmany, Nat.zero_add] at hemit
    exact hemit
  have hsize : (third.sections.get .data).size = segmentMax + 1 := by
    have hemit := filled_emit (behind.padTo 1) (Bytes.ofList [1])
    rw [filled_padTo_one, hfull, Bytes.size_ofList, List.length_singleton] at hemit
    exact hemit
  have hshort : third.oversized = false := by
    have hothers : third.sections.toList.map ByteArray.size =
        [0, (third.sections.get .data).size, 0, 0] := rfl
    rw [State.oversized, ← Function.comp_def (fun n => decide (Bytes.lengthMax < n)) ByteArray.size,
      ← List.any_map, hothers, hsize]
    rfl
  obtain ⟨file, hfinish⟩ := exists_of_finish (s := third) rfl rfl rfl
  refine ⟨file, ?_, by rw [(finish_eq_ok hfinish).2, hsize]⟩
  have hlong : fullSource.hasLongLine = false := rfl
  have hopen : third.openMacro = none := rfl
  simp only [start, startOf] at hlines
  simp only [assemble, hlong, Bool.false_eq_true, if_false, hlines, hshort, hopen, Option.isSome_none,
    hfinish]
  rfl

end FullSource

/-! ### Whole sources -/

/-- A segment of an object that is assembled is larger than the largest that is to be built exactly if a
    deed took it over that size, and such a deed writes what is not tested for room. -/
theorem assemble_overfull_iff {a : Assembler} {source : Text} {file : ObjectFile}
    (h : (assemble a source).2 = .ok file) (seg : Segment) :
    segmentMax < (file.sections.get seg).data.size ↔
      ∃ d ∈ linesDeeds source.lines (a.startOf source), d.Untested ∧ d.state.segment = seg ∧
        d.state.filled ≤ segmentMax ∧ ∃ t, d.result = .ok t ∧ segmentMax < (t.sections.get seg).size := by
  obtain ⟨s, hlines, -, hfinish, -⟩ := assemble_eq_ok h
  have hcourse := assembleLines_course source.lines (a.startOf source)
  rw [startOf, hlines, ← startOf] at hcourse
  rw [(finish_eq_ok hfinish).2]
  constructor
  · intro hover
    have hempty : ((a.startOf source).sections.get seg).size ≤ segmentMax := by
      rw [startOf, start, PerSegment.get_ofFn]
      exact Nat.zero_le _
    obtain ⟨d, hd, t, ht, rfl, hbefore, hafter⟩ := hcourse.exists_crosses hempty hover
    exact ⟨d, hd, Deed.untested_of_crosses ht hbefore hafter, rfl, hbefore, t, ht, hafter⟩
  · rintro ⟨d, hd, -, -, -, t, ht, hafter⟩
    exact lt_of_lt_of_le hafter (hcourse.size_le_of_mem hd ht seg)

theorem assemble_overfull_iff_fullSource : ∃ file, (assemble (Command.assembler []) fullSource).2 = .ok file ∧
    segmentMax < (file.sections.get .data).data.size ∧
    ∃ d ∈ linesDeeds fullSource.lines (startOf (Command.assembler []) fullSource), d.Untested ∧
      d.state.segment = .data ∧ d.state.filled ≤ segmentMax ∧
      ∃ t, d.result = .ok t ∧ segmentMax < (t.sections.get .data).size := by
  obtain ⟨file, hfile, hsize⟩ := assemble_fullSource
  have hover : segmentMax < (file.sections.get .data).data.size := by
    rw [hsize]
    exact Nat.lt_succ_self segmentMax
  exact ⟨file, hfile, hover, (assemble_overfull_iff hfile .data).1 hover⟩

/-- A segment of an object is not always within the largest size. -/
theorem assemble_not_always_within : ∃ file, (assemble (Command.assembler []) fullSource).2 = .ok file ∧
    ¬∀ seg, (file.sections.get seg).data.size ≤ segmentMax := by
  obtain ⟨file, hfile, hsize⟩ := assemble_fullSource
  refine ⟨file, hfile, fun hall => ?_⟩
  have hdata := hall .data
  rw [hsize] at hdata
  exact Nat.not_succ_le_self segmentMax hdata

end Assembler

end VectorRisc
