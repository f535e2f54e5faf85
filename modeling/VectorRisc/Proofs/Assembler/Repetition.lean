/-
Module: VectorRisc.Proofs.Assembler.Repetition
Layer: Proofs
Purpose: To repeat a scalar is to write it out. The copies that `.repeat` writes as one block, with gaps of
  its own between them, are those of the last scalar directive carried out again and again with the last
  value alone; nothing in the state tells the two apart.
Imports: Mathlib.Tactic, VectorRisc.Command.Host, VectorRisc.Proofs.Assembler.Items,
  VectorRisc.Proofs.Text.Trimming
Trusted boundary: none
Main exports: Assembler.emitScalars_replicate, Assembler.Act.times, Assembler.Deed.forgets,
  Assembler.Recalls, Assembler.repeat_writes_out
Open obligations: none
-/
import Mathlib.Tactic
import VectorRisc.Command.Host
import VectorRisc.Proofs.Assembler.Items
import VectorRisc.Proofs.Text.Trimming

namespace VectorRisc

namespace PerSegment

theorem modify_modify {α : Type} (p : PerSegment α) (s : Segment) (f g : α → α) :
    (p.modify s f).modify s g = p.modify s (g ∘ f) := by
  cases s <;> rfl

end PerSegment

namespace Assembler

/-! ### One block or many scalars -/

theorem append_append (s : State) (first second : ByteArray) :
    (s.append first).append second = s.append (first ++ second) := by
  have hboth : (fun image : ByteArray => image ++ second) ∘ (fun image => image ++ first) =
      fun image => image ++ (first ++ second) := funext fun image => ByteArray.append_assoc
  simp only [State.append, PerSegment.modify_modify, hboth]

/-- Where no label waits, none is bound. -/
theorem bindLabels_of_pending {s : State} (h : s.pending = []) : s.bindLabels = s := by
  simp only [State.bindLabels, h, List.map_nil, Array.append_empty]
  rw [← h]

/-- The zeros to the next multiple are the fewest that lead to one. -/
theorem eq_padding {size align n : Nat} (hlt : n < align) (h : align ∣ size + n) :
    n = State.padding size align := by
  have hpos : 0 < align := Nat.zero_lt_of_lt hlt
  have hpadded := dvd_add_padding hpos size
  have hpadding : State.padding size align < align := Nat.mod_lt _ hpos
  have hsame : n ≡ State.padding size align [MOD align] := by
    apply Nat.ModEq.add_left_cancel' size
    exact (Nat.modEq_zero_iff_dvd.2 h).trans (Nat.modEq_zero_iff_dvd.2 hpadded).symm
  exact hsame.eq_of_lt_of_lt hlt hpadding

/-- The gap behind a block that stands at a multiple of the alignment leads to the next one. -/
theorem padding_behind {align start : Nat} (h : 0 < align → align ∣ start) (length : Nat) :
    State.padding (start + length) align = Bytes.roundUpNat length align - length := by
  rcases Nat.eq_zero_or_pos align with rfl | hpos
  · simp [State.padding, Bytes.roundUpNat]
  · have hround := le_roundUpNat hpos length
    have hbelow : Bytes.roundUpNat length align ≤ length + align - 1 := Nat.div_mul_le_self _ _
    symm
    apply eq_padding (by omega)
    rw [Nat.add_assoc, Nat.add_sub_cancel' hround]
    exact Nat.dvd_add (h hpos) (Nat.dvd_mul_left _ _)

theorem filled_emit (s : State) (bytes : ByteArray) : (s.emit bytes).filled = s.filled + bytes.size := by
  have happend := get_append s.bindLabels bytes s.segment
  have hsegment : s.bindLabels.segment = s.segment := rfl
  rw [hsegment, if_pos rfl] at happend
  have hsize := congrArg ByteArray.size happend
  rw [ByteArray.size_append] at hsize
  exact hsize

/-- Copies of a block with gaps between them are scalars that are aligned one by one. -/
theorem emitScalars_replicate (s : State) (align n : Nat) (block : List UInt8) :
    s.emitScalars align (List.replicate (n + 1) block) =
      (s.padTo align).emit
        (copies block (Bytes.roundUpNat block.length align - block.length) (n + 1) ByteArray.empty) := by
  induction n generalizing s with
  | zero => simp [State.emitScalars, copies]
  | succ n ih =>
      generalize hgap : Bytes.roundUpNat block.length align - block.length = gap at ih ⊢
      -- behind the first block no label waits, and the padding of the others is the gap
      have hpadded : ((s.padTo align).emit (Bytes.ofList block)).padTo align =
          ((s.padTo align).emit (Bytes.ofList block)).append (Bytes.zeros gap) := by
        rw [State.padTo, filled_emit, Bytes.size_ofList, padding_behind (dvd_filled_padTo s), hgap]
      have hfirst : Bytes.ofList (block ++ List.replicate gap 0) = Bytes.ofList block ++ Bytes.zeros gap := by
        rw [← Bytes.toList_zeros, Bytes.ofList_append, Bytes.ofList_toList]
      have hbound : (((s.padTo align).emit (Bytes.ofList block)).append (Bytes.zeros gap)).bindLabels =
          ((s.padTo align).emit (Bytes.ofList block)).append (Bytes.zeros gap) :=
        bindLabels_of_pending rfl
      calc s.emitScalars align (List.replicate (n + 2) block)
          = (((s.padTo align).emit (Bytes.ofList block)).padTo align).emit
              (copies block gap (n + 1) ByteArray.empty) := ih _
        _ = (s.padTo align).bindLabels.append
              (Bytes.ofList block ++ (Bytes.zeros gap ++ copies block gap (n + 1) ByteArray.empty)) := by
            rw [hpadded, State.emit, hbound, append_append, State.emit, append_append]
        _ = (s.padTo align).emit (copies block gap (n + 2) ByteArray.empty) := by
            rw [copies, ByteArray.empty_append, hfirst, copies_append block gap (n + 1) (_ ++ _),
              ByteArray.append_assoc, State.emit]

/-! ### Directives carried out again -/

/-- Carry out an act a number of times. -/
def Act.times (a : Act) : Nat → State → Except Failure State
  | 0, s => .ok s
  | n + 1, s =>
    match a.run s with
    | .error f => .error f
    | .ok t => a.times n t

theorem length_of_scalarBytes {kind : Scalar} {word : Text} {bytes : List UInt8}
    (h : scalarBytes kind word = .ok bytes) : bytes.length = kind.size := by
  unfold scalarBytes at h
  split at h
  case h_1 | h_2 =>
      split at h
      · cases h
        exact Bytes.length_ofNat _ _
      · cases h
  all_goals
      split at h
      · cases h
      · simp only at h
        split at h
        · cases h
        · cases h
          exact Bytes.length_ofNat _ _

/-- The last value of a list of scalars has the last bytes. -/
theorem getLast?_of_scalarsBytes {kind : Scalar} {words : List Text} {items : List (List UInt8)}
    (h : scalarsBytes kind words = .ok items) {value : Text} (hlast : words.getLast? = some value) :
    ∃ block, scalarBytes kind value = .ok block ∧ items.getLast? = some block := by
  induction words generalizing items with
  | nil => cases hlast
  | cons word rest ih =>
      rw [scalarsBytes] at h
      split at h
      · cases h
      · rename_i bytes hbytes
        obtain ⟨others, hothers, rfl⟩ := map_eq_ok.1 h
        cases rest with
        | nil =>
            cases hothers
            cases hlast
            exact ⟨bytes, hbytes, rfl⟩
        | cons next rest =>
            rw [List.getLast?_cons_cons] at hlast
            obtain ⟨block, hblock, hend⟩ := ih hothers hlast
            refine ⟨block, hblock, ?_⟩
            rw [List.getLast?_cons, hend]
            rfl

/-- No scalar is written without a text. -/
theorem ne_nil_of_scalarBytes {kind : Scalar} {word : Text} {bytes : List UInt8}
    (h : scalarBytes kind word = .ok bytes) : word ≠ [] := by
  rintro rfl
  have hnone : (scalarBytes kind []).isOk = false := by cases kind <;> rfl
  rw [h] at hnone
  cases hnone

/-- A directive of data is none of a segment. -/
theorem segmentOf?_of_dataDirective? {name : Text} {d : DataDirective}
    (h : dataDirective? name = some d) : segmentOf? name = none := by
  cases hfound : segmentOf? name with
  | none => rfl
  | some segment =>
      rw [dataDirective?_of_segmentOf? hfound] at h
      cases h

/-- A directive of data, in a data segment. -/
theorem directive_eq_data {s : State} {name args : Text} {labelled : Bool} {d : DataDirective}
    (hname : dataDirective? name = some d) (hstarted : s.started = true) (hdata : s.segment.isCode = false) :
    s.directive name args labelled = s.data name args := by
  have hne (other : Text) (hother : dataDirective? other = none) : name ≠ other := by
    rintro rfl
    rw [hname] at hother
    cases hother
  rw [State.directive, segmentOf?_of_dataDirective? hname]
  simp only [hstarted, hdata, hne (Text.ofString ".kstart") rfl, hne (Text.ofString ".entry") rfl,
    hne (Text.ofString ".extern") rfl, hne (Text.ofString ".global") rfl, Bool.not_true,
    Bool.false_eq_true, if_false]

/-- A directive of data that succeeds stands in a data segment, and writes what it writes there. -/
theorem writes_of_directive {s t : State} {name args : Text} {labelled : Bool} {d : DataDirective}
    (hname : dataDirective? name = some d) (h : s.directive name args labelled = .ok t) :
    s.started = true ∧ s.segment.isCode = false ∧ Writes s args d t := by
  have hstarted : s.started = true := by
    by_contra hnot
    rw [State.directive, segmentOf?_of_dataDirective? hname] at h
    simp only [Bool.not_eq_true _ ▸ hnot, Bool.not_false, if_true] at h
    cases h
  cases directive_cases h with
  | enters _ hsegment =>
      rw [segmentOf?_of_dataDirective? hname] at hsegment
      cases hsegment
  | kernelStart hother | entry hother | externs hother | globals hother =>
      rw [hname] at hother
      cases hother
  | data hdata hsome hwrites =>
      obtain rfl := Option.some.inj (hname.symm.trans hsome)
      exact ⟨hstarted, hdata, hwrites⟩

/-! ### The value to repeat -/

/-- The directive takes the value to repeat away, or puts another one in its place. -/
def DataDirective.forgets : DataDirective → Bool
  | .scalar _ | .string _ | .space => true
  | .align | .again => false

/-- The deed takes the value to repeat away, or puts another one in its place: it goes on in a data segment,
    or writes scalars, a string or space. -/
def Deed.forgets (d : Deed) : Bool :=
  match d.act with
  | .directive name _ _ =>
    (segmentOf? name).any (fun segment => !segment.isCode) ||
      (dataDirective? name).any DataDirective.forgets
  | _ => false

/-- The last scalars before the state were written by the directive `name`, the last of them was `value`, and
    nothing has taken that away since. -/
inductive Recalls (name value : Text) : State → Prop where
  | wrote {s t : State} {kind : Scalar} {args : Text} {labelled : Bool}
      (hname : dataDirective? name = some (.scalar kind))
      (hvalue : args.splitOperands.getLast? = some value)
      (h : s.directive name args labelled = .ok t) : Recalls name value t
  | passes {s t : State} (hs : Recalls name value s) (h : Passes s t) : Recalls name value t
  | does {d : Deed} {t : State} (hs : Recalls name value d.state) (hkeeps : d.forgets = false)
      (h : d.result = .ok t) : Recalls name value t

theorem lastScalar_emitScalars (align : Nat) (items : List (List UInt8)) (s : State) :
    (s.emitScalars align items).lastScalar = s.lastScalar := by
  obtain ⟨_, _, _, _, hsame⟩ := emitScalars_eq align items s
  rw [hsame]

/-- A deed leaves the value to repeat, unless it is one of those that do not. -/
theorem Deed.lastScalar_eq {d : Deed} {t : State} (hkeeps : d.forgets = false) (h : d.result = .ok t) :
    t.lastScalar = d.state.lastScalar := by
  obtain ⟨s, act⟩ := d
  cases act with
  | labels text =>
      obtain rfl := declareAll_eq_ok h
      rfl
  | instruction line =>
      obtain ⟨c, -, rfl⟩ := instruction_eq_ok h
      rfl
  | directive name args labelled =>
      simp only [forgets, Bool.or_eq_false_iff] at hkeeps
      cases directive_cases h with
      | enters segment hname =>
          have hcode : segment.isCode = true := by simpa [hname] using hkeeps.1
          simp only [State.enter, hcode, if_true]
          split <;> rfl
      | kernelStart | entry | externs => rfl
      | globals _ labels =>
          obtain ⟨globals, hsame⟩ := foldl_addGlobal_eq labels s
          rw [hsame]
      | data _ hname hwrites =>
          have hlast := hkeeps.2
          rw [hname, Option.any_some] at hlast
          cases hwrites with
          | aligns | repeatsNone | repeats => rfl
          | zeros | text | scalars => cases hlast

/-- What is recalled: the bytes of the value, which is the only operand of its own text. -/
theorem Recalls.block {name value : Text} {s : State} (h : Recalls name value s) :
    ∃ kind block, dataDirective? name = some (.scalar kind) ∧ value.splitOperands = [value] ∧
      scalarBytes kind value = .ok block ∧ s.lastScalar = some block := by
  induction h with
  | @wrote s t kind args labelled hname hvalue h =>
      cases (writes_of_directive hname h).2.2 with
      | scalars hitems =>
          obtain ⟨block, hblock, hlast⟩ := getLast?_of_scalarsBytes hitems hvalue
          have hone := Text.splitOperands_of_mem (List.mem_of_getLast? hvalue)
            (ne_nil_of_scalarBytes hblock)
          exact ⟨kind, block, hname, hone, hblock, hlast⟩
  | passes _ hstep ih =>
      obtain ⟨kind, block, hname, hone, hblock, hlast⟩ := ih
      refine ⟨kind, block, hname, hone, hblock, ?_⟩
      cases hstep with
      | reads => exact hlast
      | aside haside => cases haside <;> exact hlast
  | does _ hkeeps hdeed ih =>
      obtain ⟨kind, block, hname, hone, hblock, hlast⟩ := ih
      exact ⟨kind, block, hname, hone, hblock, (Deed.lastScalar_eq hkeeps hdeed).trans hlast⟩

/-! ### Repetition -/

/-- A directive that writes the value to repeat once more does just that. -/
theorem scalar_again {s : State} {name value : Text} {kind : Scalar} {block : List UInt8}
    (hname : dataDirective? name = some (.scalar kind)) (hvalue : value.splitOperands = [value])
    (hblock : scalarBytes kind value = .ok block) (hstarted : s.started = true)
    (hdata : s.segment.isCode = false) (hlast : s.lastScalar = some block) (labelled : Bool) :
    s.directive name value labelled = .ok (s.emitScalars (s.alignment kind.size) [block]) := by
  have hsame : { s.emitScalars (s.alignment kind.size) [block] with lastScalar := some block } =
      s.emitScalars (s.alignment kind.size) [block] := by
    rw [← hlast, ← lastScalar_emitScalars (s.alignment kind.size) [block] s]
  have hitems : scalarsBytes kind [value] = .ok [block] := by
    rw [scalarsBytes, hblock]
    rfl
  rw [directive_eq_data hname hstarted hdata, State.data, hname]
  simp only [State.scalarDirective, hvalue, hitems, List.getLast?_singleton, hsame]

theorem times_scalar {s : State} {name value : Text} {kind : Scalar} {block : List UInt8}
    (hname : dataDirective? name = some (.scalar kind)) (hvalue : value.splitOperands = [value])
    (hblock : scalarBytes kind value = .ok block) (hstarted : s.started = true)
    (hdata : s.segment.isCode = false) (hlast : s.lastScalar = some block) (labelled : Bool) (n : Nat) :
    (Act.directive name value labelled).times n s =
      .ok (s.emitScalars (s.alignment kind.size) (List.replicate n block)) := by
  induction n generalizing s with
  | zero => rfl
  | succ n ih =>
      have hfirst := scalar_again hname hvalue hblock hstarted hdata hlast labelled
      rw [Act.times, Act.run, hfirst]
      exact ih hstarted hdata ((lastScalar_emitScalars _ _ s).trans hlast)

/-- To repeat a scalar is to write it out: where the last scalars were written by a directive and have not
    been forgotten since, a repetition that succeeds leads to the very state that this directive leads to,
    carried out with the last value alone as many times. -/
theorem repeat_writes_out {name value : Text} {s t : State} (hs : Recalls name value s)
    {again args : Text} (hagain : dataDirective? again = some .again) {labelled : Bool}
    (h : s.directive again args labelled = .ok t) :
    ∃ n, count args = .ok n ∧ (Act.directive name value false).times n s = .ok t := by
  obtain ⟨kind, block, hname, hone, hblock, hlast⟩ := hs.block
  obtain ⟨hstarted, hdata, hwrites⟩ := writes_of_directive hagain h
  have htimes := times_scalar hname hone hblock hstarted hdata hlast false
  cases hwrites with
  | repeatsNone hn => exact ⟨0, hn, rfl⟩
  | @repeats n last hn hsome =>
      obtain rfl := Option.some.inj (hlast.symm.trans hsome)
      refine ⟨n + 1, hn, ?_⟩
      rw [htimes, ← length_of_scalarBytes hblock, emitScalars_replicate]

/-- Halves that are four bytes apart, a label, and three more of the last one. -/
def spacedHalves : Except Failure (State × State) := do
  let start : State :=
    { host := Command.host, table := Table.standard, equates := [], segment := .data, started := true,
      align := some 4 }
  let s ← start.directive (Text.ofString ".half") (Text.ofString "5, 7") false
  let s ← (Act.labels (Text.ofString "x:")).run s
  let t ← s.directive (Text.ofString ".repeat") (Text.ofString "3") false
  .ok (s, t)

theorem repeat_writes_out_spacedHalves : ∃ s t, spacedHalves = .ok (s, t) ∧
    Recalls (Text.ofString ".half") (Text.ofString "7") s ∧
    dataDirective? (Text.ofString ".repeat") = some .again ∧
    s.directive (Text.ofString ".repeat") (Text.ofString "3") false = .ok t ∧
    (∃ n, count (Text.ofString "3") = .ok n ∧
      (Act.directive (Text.ofString ".half") (Text.ofString "7") false).times n s = .ok t) ∧
    s.pending.map Mark.name = [Text.ofString "x"] ∧ t.pending = [] ∧
    t.symbols.toList.map Symbol.position = [8] ∧
    (t.sections.get .data).toList = [5, 0, 0, 0, 7, 0, 0, 0, 7, 0, 0, 0, 7, 0, 0, 0, 7, 0] := by
  have hfacts : (spacedHalves.toOption.map fun (s, t) => (s.pending.map Mark.name, t.pending,
      t.symbols.toList.map Symbol.position, (t.sections.get .data).toList)) =
      some ([Text.ofString "x"], [], [8], [5, 0, 0, 0, 7, 0, 0, 0, 7, 0, 0, 0, 7, 0, 0, 0, 7, 0]) := by
    decide +kernel
  cases hrun : spacedHalves with
  | error f =>
      rw [hrun] at hfacts
      cases hfacts
  | ok pair =>
      obtain ⟨s, t⟩ := pair
      rw [hrun] at hfacts
      simp only [Except.toOption, Option.map_some, Option.some.injEq, Prod.mk.injEq] at hfacts
      obtain ⟨first, hfirst, hrest⟩ := bind_eq_ok.1 hrun
      obtain ⟨second, hlabel, hlast⟩ := bind_eq_ok.1 hrest
      obtain ⟨third, hrepeat, hpair⟩ := bind_eq_ok.1 hlast
      cases hpair
      have hhalf : dataDirective? (Text.ofString ".half") = some (.scalar .half) := rfl
      have hwrote : Recalls (Text.ofString ".half") (Text.ofString "7") first :=
        .wrote hhalf (by decide +kernel) hfirst
      have hrecalls : Recalls (Text.ofString ".half") (Text.ofString "7") s :=
        .does (d := ⟨first, .labels (Text.ofString "x:")⟩) hwrote rfl hlabel
      exact ⟨s, t, rfl, hrecalls, rfl, hrepeat, repeat_writes_out hrecalls rfl hrepeat, hfacts⟩

end Assembler

end VectorRisc
