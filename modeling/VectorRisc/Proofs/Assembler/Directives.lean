/-
Module: VectorRisc.Proofs.Assembler.Directives
Layer: Proofs
Purpose: What a directive can do. A directive that succeeds makes one of a few changes to the state, and a
  directive that fails has an error of its own.
Imports: Mathlib.Tactic, VectorRisc.Proofs.Assembler.Acts, VectorRisc.Proofs.Outcome
Trusted boundary: none
Main exports: Assembler.IsAlignment, Assembler.Writes, Assembler.data_cases, Assembler.Directs,
  Assembler.emitScalars_eq, Assembler.directive_cases, Assembler.isOfDirective_of_directive
Open obligations: none
-/
import Mathlib.Tactic
import VectorRisc.Proofs.Assembler.Acts
import VectorRisc.Proofs.Outcome

namespace VectorRisc

namespace Assembler

/-! ### Changes -/

/-- An alignment that can be asked for: a power of two from 1 to 256. -/
def IsAlignment (n : Nat) : Prop := ∃ k ≤ 8, n = 2 ^ k

/-- What a directive of a data segment changes. -/
inductive Writes (s : State) (args : Text) : DataDirective → State → Prop where
  | aligns {n : Nat} (hn : IsAlignment n) : Writes s args .align { s with align := some n }
  | zeros {n : Nat} (hn : count args = .ok n) :
      Writes s args .space { (s.padTo (s.alignment 1)).emit (Bytes.zeros n) with lastScalar := none }
  | text {encoding : Encoding} {t : Text} {bytes : List UInt8} (ht : Literal.string? args = some t)
      (hbytes : encoding.bytes s.host t = .ok bytes) :
      Writes s args (.string encoding)
        { (s.padTo (s.alignment encoding.align)).emit (Bytes.ofList bytes) with lastScalar := none }
  | repeatsNone (hn : count args = .ok 0) : Writes s args .again s
  | repeats {n : Nat} {block : List UInt8} (hn : count args = .ok (n + 1))
      (hblock : s.lastScalar = some block) :
      Writes s args .again ((s.padTo (s.alignment block.length)).emit
        (copies block (Bytes.roundUpNat block.length (s.alignment block.length) - block.length) (n + 1)
          ByteArray.empty))
  | scalars {kind : Scalar} {items : List (List UInt8)}
      (hitems : scalarsBytes kind args.splitOperands = .ok items) :
      Writes s args (.scalar kind)
        { s.emitScalars (s.alignment kind.size) items with lastScalar := items.getLast? }

/-- What a directive changes. -/
inductive Directs (s : State) (name args : Text) : State → Prop where
  | enters (segment : Segment) (hname : segmentOf? name = some segment) :
      Directs s name args (s.enter segment)
  | kernelStart (hname : dataDirective? name = none) : Directs s name args { s with kernelStart := true }
  | entry (hname : dataDirective? name = none) (label : Text) :
      Directs s name args { s with entry := some (label, s.here) }
  | externs (hname : dataDirective? name = none) (labels : List Text) :
      Directs s name args { s with externs := s.externs ++ labels }
  | globals (hname : dataDirective? name = none) (labels : List Text) :
      Directs s name args (labels.foldl State.addGlobal s)
  | data {d : DataDirective} {t : State} (hdata : s.segment.isCode = false)
      (hname : dataDirective? name = some d) (h : Writes s args d t) : Directs s name args t

/-- Scalars change what is written and what is bound, and nothing else. -/
theorem emitScalars_eq (align : Nat) (items : List (List UInt8)) (s : State) :
    ∃ sections symbols log pending, s.emitScalars align items =
      { s with sections := sections, symbols := symbols, log := log, pending := pending } := by
  induction items generalizing s with
  | nil => exact ⟨_, _, _, _, rfl⟩
  | cons bytes rest ih =>
      obtain ⟨sections, symbols, log, pending, hrest⟩ := ih ((s.padTo align).emit (Bytes.ofList bytes))
      exact ⟨sections, symbols, log, pending, hrest⟩

/-- Labels that become global change nothing else. -/
theorem foldl_addGlobal_eq (labels : List Text) (s : State) :
    ∃ globals, labels.foldl State.addGlobal s = { s with globals := globals } := by
  induction labels generalizing s with
  | nil => exact ⟨_, rfl⟩
  | cons label rest ih =>
      obtain ⟨globals, hrest⟩ := ih (s.addGlobal label)
      exact ⟨globals, hrest⟩

/-- A segment's directive is none of data. -/
theorem dataDirective?_of_segmentOf? {name : Text} {segment : Segment}
    (h : segmentOf? name = some segment) : dataDirective? name = none := by
  have hname := List.find?_some h
  rw [decide_eq_true_eq] at hname
  rw [hname]
  cases segment <;> rfl

/-! ### Directives that succeed -/

theorem isAlignment_of_log2 {n : Nat} (hmax : n ≤ 256) (hpow : n = 1 <<< n.log2) :
    IsAlignment n := by
  rw [Nat.one_shiftLeft] at hpow
  refine ⟨n.log2, ?_, hpow⟩
  by_contra hlarge
  have hlt : 2 ^ 8 < 2 ^ n.log2 := Nat.pow_lt_pow_right (by norm_num) (by omega)
  omega

variable {s t : State} {name args : Text}

theorem alignDirective_cases (h : s.alignDirective args = .ok t) : Writes s args .align t := by
  rw [State.alignDirective] at h
  split at h
  · cases h
  · split at h
    · cases h
    · rename_i hn
      cases h
      simp only [Bool.or_eq_true, decide_eq_true_eq, not_or, Nat.not_lt, not_not] at hn
      exact .aligns (isAlignment_of_log2 hn.1.2 hn.2)

theorem spaceDirective_cases (h : s.spaceDirective args = .ok t) : Writes s args .space t := by
  rw [State.spaceDirective] at h
  split at h
  · cases h
  · rename_i hn
    split at h
    · cases h
    · cases h
      exact .zeros hn

theorem stringDirective_cases {encoding : Encoding} (h : s.stringDirective encoding args = .ok t) :
    Writes s args (.string encoding) t := by
  rw [State.stringDirective] at h
  split at h
  · cases h
  · rename_i ht
    split at h
    · cases h
    · rename_i hbytes
      cases h
      exact .text ht hbytes

theorem repeatDirective_cases (h : s.repeatDirective args = .ok t) : Writes s args .again t := by
  rw [State.repeatDirective] at h
  split at h
  · cases h
  · rename_i n hn
    split at h
    · cases h
    · rename_i hblock
      simp only at h
      split at h
      · cases h
      · cases n with
        | zero =>
            cases h
            exact .repeatsNone hn
        | succ n =>
            cases h
            exact .repeats hn hblock

theorem scalarDirective_cases {kind : Scalar} (h : s.scalarDirective kind name args = .ok t) :
    Writes s args (.scalar kind) t := by
  rw [State.scalarDirective] at h
  split at h
  · cases h
  · split at h
    · cases h
    · rename_i hitems
      cases h
      exact .scalars hitems

theorem data_cases (h : s.data name args = .ok t) :
    ∃ d, dataDirective? name = some d ∧ Writes s args d t := by
  rw [State.data] at h
  split at h
  · cases h
  · exact ⟨_, ‹_›, alignDirective_cases h⟩
  · exact ⟨_, ‹_›, spaceDirective_cases h⟩
  · exact ⟨_, ‹_›, stringDirective_cases h⟩
  · exact ⟨_, ‹_›, repeatDirective_cases h⟩
  · exact ⟨_, ‹_›, scalarDirective_cases h⟩

theorem entryDirective_cases (h : s.entryDirective name args = .ok t) :
    t = { s with entry := some (args, s.here) } := by
  rw [State.entryDirective] at h
  split at h
  · cases h
  · split at h
    · cases h
    · split at h
      · cases h
      · exact (Except.ok.inj h).symm

theorem externDirective_cases (h : s.externDirective name args = .ok t) :
    ∃ labels, t = { s with externs := s.externs ++ labels } := by
  rw [State.externDirective] at h
  split at h
  · cases h
  · split at h
    · cases h
    · exact ⟨_, (Except.ok.inj h).symm⟩

theorem globalDirective_cases (h : s.globalDirective args = .ok t) :
    ∃ labels : List Text, t = labels.foldl State.addGlobal s := by
  rw [State.globalDirective] at h
  split at h
  · cases h
  · exact ⟨_, (Except.ok.inj h).symm⟩

/-- Everything that a directive can do. -/
theorem directive_cases {labelled : Bool} (h : s.directive name args labelled = .ok t) :
    Directs s name args t := by
  rw [State.directive] at h
  split at h
  · rename_i segment hsegment
    split at h
    · cases h
    · split at h
      · cases h
      · cases h
        exact .enters segment hsegment
  · split at h
    · cases h
    · split at h
      · rename_i hname
        split at h
        · cases h
          exact .kernelStart (hname ▸ rfl)
        · cases h
      · split at h
        · rename_i hname
          obtain rfl := entryDirective_cases h
          exact .entry (hname ▸ rfl) args
        · split at h
          · rename_i hname
            obtain ⟨labels, rfl⟩ := externDirective_cases h
            exact .externs (hname ▸ rfl) labels
          · split at h
            · rename_i hname
              obtain ⟨labels, rfl⟩ := globalDirective_cases h
              exact .globals (hname ▸ rfl) labels
            · split at h
              · cases h
              · rename_i hcode
                obtain ⟨d, hname, hwrites⟩ := data_cases h
                exact .data (Bool.not_eq_true _ ▸ hcode) hname hwrites

/-! ### Directives that fail -/

/-- What can be wrong with a directive. -/
def Error.isOfDirective : Error → Bool
  | .instruction _ | .outsideSegment | .directiveUnknown _ | .directivePlace _ | .directiveSyntax => true
  | .valueMissing _ | .alignInvalid _ | .repeatNone | .kernelStart | .negativeCount _ => true
  | .noRoom _ _ | .floatRange _ | .scalarRange _ _ | .stringSyntax _ => true
  | .labelSegment | .labelInvalid _ | .entryDuplicate => true
  | _ => false

theorem isOfDirective_cause {e : Error} (h : e.isOfDirective = true) : e.cause.isOfDirective = true := by
  cases e with
  | located | inMacro => cases h
  | _ => exact h

theorem isOfDirective_of_count {e : Error} (h : count args = .error e) : e.isOfDirective = true := by
  rw [count] at h
  split at h
  · cases h
    rfl
  · split at h
    · cases h
      rfl
    · cases h

theorem isOfDirective_of_fits {number stride : Nat} {e : Error} (h : s.fits number stride = .error e) :
    e.isOfDirective = true := by
  simp only [State.fits] at h
  split at h
  · cases h
    rfl
  · cases h

theorem isOfDirective_of_readLabels {e : Error} (h : readLabels args = .error e) :
    e.isOfDirective = true := by
  rw [readLabels] at h
  split at h
  · cases h
    rfl
  · split at h
    · cases h
      rfl
    · cases h

theorem isOfDirective_of_scalarBytes {kind : Scalar} {word : Text} {e : Error}
    (h : scalarBytes kind word = .error e) : e.isOfDirective = true := by
  unfold scalarBytes at h
  split at h
  case h_1 | h_2 =>
      split at h
      · cases h
      · cases h
        rfl
  all_goals
      split at h
      · cases h
        rfl
      · simp only at h
        split at h
        · cases h
          rfl
        · cases h

theorem isOfDirective_of_scalarsBytes {kind : Scalar} {words : List Text} {e : Error}
    (h : scalarsBytes kind words = .error e) : e.isOfDirective = true := by
  induction words with
  | nil => cases h
  | cons word rest ih =>
      rw [scalarsBytes] at h
      split at h
      · rename_i hword
        cases h
        exact isOfDirective_of_scalarBytes hword
      · exact ih (map_eq_error h)

variable {f : Failure}

/-- A text that cannot be encoded is a string that cannot be written. -/
theorem isOfDirective_of_bytes {encoding : Encoding} {host : Host} {t : Text} {e : Error}
    (h : encoding.bytes host t = .error e) : e.isOfDirective = true := by
  cases encoding with
  | plain | terminated => cases h
  | utf16 =>
      rw [Encoding.bytes] at h
      cases hbytes : host.utf16 t with
      | error cause =>
          rw [hbytes] at h
          cases h
          rfl
      | ok bytes =>
          rw [hbytes] at h
          cases h

theorem isOfDirective_of_data (h : s.data name args = .error f) : f.error.isOfDirective = true := by
  rw [State.data] at h
  split at h
  · cases h
    rfl
  · rw [State.alignDirective] at h
    split at h
    · cases h
      exact isOfDirective_of_count ‹_›
    · split at h
      · cases h
        rfl
      · cases h
  · rw [State.spaceDirective] at h
    split at h
    · cases h
      exact isOfDirective_of_count ‹_›
    · split at h
      · cases h
        exact isOfDirective_of_fits ‹_›
      · cases h
  · rw [State.stringDirective] at h
    split at h
    · cases h
      rfl
    · split at h
      · cases h
        exact isOfDirective_of_bytes ‹_›
      · cases h
  · rw [State.repeatDirective] at h
    split at h
    · cases h
      exact isOfDirective_of_count ‹_›
    · split at h
      · cases h
        rfl
      · simp only at h
        split at h
        · cases h
          exact isOfDirective_of_fits ‹_›
        · split at h <;> cases h
  · rw [State.scalarDirective] at h
    split at h
    · cases h
      rfl
    · split at h
      · cases h
        exact isOfDirective_of_scalarsBytes ‹_›
      · cases h

/-- A directive fails for a reason of its own. -/
theorem isOfDirective_of_directive {labelled : Bool} (h : s.directive name args labelled = .error f) :
    f.error.isOfDirective = true := by
  rw [State.directive] at h
  split at h
  · split at h
    · cases h
      rfl
    · split at h
      · cases h
        rfl
      · cases h
  · split at h
    · cases h
      rfl
    · split at h
      · split at h
        · cases h
        · cases h
          rfl
      · split at h
        · rw [State.entryDirective] at h
          split at h
          · cases h
            rfl
          · split at h
            · cases h
              rfl
            · split at h
              · cases h
                rfl
              · cases h
        · split at h
          · rw [State.externDirective] at h
            split at h
            · cases h
              rfl
            · split at h
              · cases h
                exact isOfDirective_of_readLabels ‹_›
              · cases h
          · split at h
            · rw [State.globalDirective] at h
              split at h
              · cases h
                exact isOfDirective_of_readLabels ‹_›
              · cases h
            · split at h
              · cases h
                split <;> rfl
              · exact isOfDirective_of_data h

end Assembler

end VectorRisc
