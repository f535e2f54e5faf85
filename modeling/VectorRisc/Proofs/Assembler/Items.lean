/-
Module: VectorRisc.Proofs.Assembler.Items
Layer: Proofs
Purpose: The items of data that an assembly writes: scalars, strings, space and repeated scalars. The data
  of an object is made of them and of zeros between them, and where an alignment is asked for, the offset
  of an item is a multiple of it.
Imports: Mathlib.Tactic, VectorRisc.Proofs.Assembler.Invariant
Trusted boundary: none
Main exports: Assembler.Item, Assembler.Deed.items, Assembler.Lays, Assembler.Course.lays,
  Assembler.Item.Aligned, Assembler.Course.aligned
Open obligations: none
-/
import Mathlib.Tactic
import VectorRisc.Proofs.Assembler.Invariant

namespace VectorRisc

namespace Assembler

/-- An item of data: where it stands in a segment, what `.align` asks for there, and its bytes. -/
structure Item where
  segment : Segment
  offset : Nat
  asked : Option Nat
  bytes : List UInt8
deriving DecidableEq, Repr

/-! ### Items of a directive -/

/-- An item at the next multiple of an alignment. -/
def State.item (s : State) (align : Nat) (bytes : List UInt8) : Item :=
  ⟨s.segment, (s.padTo align).filled, s.align, bytes⟩

/-- Scalars, each at the next multiple of an alignment. -/
def State.scalarItems (s : State) (align : Nat) : List (List UInt8) → List Item
  | [] => []
  | bytes :: rest =>
    s.item align bytes :: ((s.padTo align).emit (Bytes.ofList bytes)).scalarItems align rest

/-- Copies of a block with a gap after each. -/
def copyItems (segment : Segment) (asked : Option Nat) (block : List UInt8) (gap : Nat) :
    (n offset : Nat) → List Item
  | 0, _ => []
  | n + 1, offset =>
    ⟨segment, offset, asked, block⟩ ::
      copyItems segment asked block gap n (offset + (block.length + gap))

/-- The items of a directive of a data segment. -/
def State.dataItems (s : State) (name args : Text) : List Item :=
  match dataDirective? name with
  | some (.scalar kind) =>
    match scalarsBytes kind args.splitOperands with
    | .ok items => s.scalarItems (s.alignment kind.size) items
    | .error _ => []
  | some .space =>
    match count args with
    | .ok n => [s.item (s.alignment 1) (List.replicate n 0)]
    | .error _ => []
  | some (.string encoding) =>
    match Literal.string? args with
    | some t =>
      match encoding.bytes s.host t with
      | .ok bytes => [s.item (s.alignment encoding.align) bytes]
      | .error _ => []
    | none => []
  | some .again =>
    match count args, s.lastScalar with
    | .ok n, some block =>
      let align := s.alignment block.length
      copyItems s.segment s.align block (Bytes.roundUpNat block.length align - block.length) n
        (s.padTo align).filled
    | _, _ => []
  | some .align | none => []

/-- The items that a deed writes. -/
def Deed.items (d : Deed) : List Item :=
  match d.act with
  | .directive name args _ => if d.state.segment.isCode then [] else d.state.dataItems name args
  | _ => []

/-! ### Images -/

/-- The item stands in an image. -/
def Item.Stands (item : Item) (image : ByteArray) : Prop :=
  ∃ before after, image = before ++ Bytes.ofList item.bytes ++ after ∧ before.size = item.offset

/-- The byte at an offset belongs to the item. -/
def Item.Covers (item : Item) (k : Nat) : Prop :=
  item.offset ≤ k ∧ k < item.offset + item.bytes.length

/-- An image goes on with items: they stand in it, and what lies behind the image before and in none of
    them is zero. -/
structure Lays (image : ByteArray) (items : List Item) (after : ByteArray) : Prop where
  grows : ∃ more, after = image ++ more
  stands : ∀ item ∈ items, item.Stands after
  covers : ∀ k, Bytes.byteAt after k ≠ 0 → k < image.size ∨ ∃ item ∈ items, item.Covers k

theorem Item.Stands.append {item : Item} {image : ByteArray} (h : item.Stands image) (more : ByteArray) :
    item.Stands (image ++ more) := by
  obtain ⟨before, after, rfl, hoffset⟩ := h
  exact ⟨before, after ++ more, by rw [ByteArray.append_assoc], hoffset⟩

theorem lt_of_byteAt_ne {image : ByteArray} {k : Nat} (h : Bytes.byteAt image k ≠ 0) : k < image.size := by
  by_contra hout
  exact h (Bytes.byteAt_of_le (Nat.le_of_not_lt hout))

namespace Lays

variable {image middle after : ByteArray} {items others : List Item}

theorem refl (image : ByteArray) : Lays image [] image :=
  ⟨⟨ByteArray.empty, ByteArray.append_empty.symm⟩, by simp, fun _ hk => .inl (lt_of_byteAt_ne hk)⟩

theorem zeros (image : ByteArray) (n : Nat) : Lays image [] (image ++ Bytes.zeros n) := by
  refine ⟨⟨_, rfl⟩, by simp, fun k hk => .inl ?_⟩
  by_contra hout
  obtain ⟨i, rfl⟩ := Nat.exists_eq_add_of_le (Nat.le_of_not_lt hout)
  rw [Bytes.byteAt_append_right, Bytes.byteAt_zeros] at hk
  exact hk rfl

theorem item (item : Item) (h : item.offset = image.size) :
    Lays image [item] (image ++ Bytes.ofList item.bytes) := by
  refine ⟨⟨_, rfl⟩, ?_, fun k hk => ?_⟩
  · intro other hother
    rw [List.mem_singleton.1 hother]
    exact ⟨image, ByteArray.empty, ByteArray.append_empty.symm, h.symm⟩
  · have hlt := lt_of_byteAt_ne hk
    rw [ByteArray.size_append, Bytes.size_ofList] at hlt
    by_cases hold : k < image.size
    · exact .inl hold
    · exact .inr ⟨item, List.mem_singleton_self item, by omega, by omega⟩

theorem trans (h : Lays image items middle) (hnext : Lays middle others after) :
    Lays image (items ++ others) after := by
  obtain ⟨first, rfl⟩ := h.grows
  obtain ⟨second, rfl⟩ := hnext.grows
  refine ⟨⟨first ++ second, ByteArray.append_assoc⟩, ?_, fun k hk => ?_⟩
  · intro item hitem
    rcases List.mem_append.1 hitem with hitem | hitem
    · exact (h.stands item hitem).append second
    · exact hnext.stands item hitem
  · rcases hnext.covers k hk with hbefore | ⟨item, hitem, hcovers⟩
    · rw [Bytes.byteAt_append_left second hbefore] at hk
      rcases h.covers k hk with hold | ⟨item, hitem, hcovers⟩
      · exact .inl hold
      · exact .inr ⟨item, List.mem_append_left _ hitem, hcovers⟩
    · exact .inr ⟨item, List.mem_append_right _ hitem, hcovers⟩

/-- Copies are items, and the gaps between them are zeros. -/
theorem copies (segment : Segment) (asked : Option Nat) (block : List UInt8) (gap n : Nat)
    (image : ByteArray) :
    Lays image (copyItems segment asked block gap n image.size) (copies block gap n image) := by
  induction n generalizing image with
  | zero => exact .refl image
  | succ n ih =>
      have hfirst : Lays image [⟨segment, image.size, asked, block⟩] (image ++ Bytes.ofList block) :=
        item _ rfl
      cases n with
      | zero => exact hfirst
      | succ n =>
          have hgap : Bytes.ofList (block ++ List.replicate gap 0) =
              Bytes.ofList block ++ Bytes.zeros gap := by
            rw [← Bytes.toList_zeros, Bytes.ofList_append, Bytes.ofList_toList]
          have hpiece := hfirst.trans (zeros _ gap)
          have hrest := ih (image ++ Bytes.ofList (block ++ List.replicate gap 0))
          rw [hgap, ← ByteArray.append_assoc, ByteArray.size_append, ByteArray.size_append,
            Bytes.size_ofList, Bytes.size_zeros, Nat.add_assoc] at hrest
          rw [Assembler.copies, hgap, ← ByteArray.append_assoc]
          exact hpiece.trans hrest

end Lays

theorem copies_append (block : List UInt8) (gap n : Nat) (image : ByteArray) :
    copies block gap n image = image ++ copies block gap n ByteArray.empty := by
  induction n generalizing image with
  | zero => exact ByteArray.append_empty.symm
  | succ n ih =>
      cases n with
      | zero => rw [copies, copies, ByteArray.empty_append]
      | succ n => rw [copies, copies, ih, ih (ByteArray.empty ++ _), ByteArray.empty_append,
          ByteArray.append_assoc]

/-! ### One deed -/

/-- The data segments go on with items. -/
def LaysAll (s : State) (items : List Item) (t : State) : Prop :=
  ∀ seg : Segment, seg.isCode = false →
    Lays (s.sections.get seg) (items.filter fun item => item.segment = seg) (t.sections.get seg)

namespace LaysAll

variable {s t u : State} {items others : List Item}

theorem of_same (h : ∀ seg : Segment, seg.isCode = false → t.sections.get seg = s.sections.get seg) :
    LaysAll s [] t := by
  intro seg hdata
  rw [h seg hdata]
  exact .refl _

theorem trans (h : LaysAll s items t) (hnext : LaysAll t others u) : LaysAll s (items ++ others) u := by
  intro seg hdata
  rw [List.filter_append]
  exact (h seg hdata).trans (hnext seg hdata)

/-- Items of the current segment. -/
theorem here (hsegment : ∀ item ∈ items, item.segment = s.segment)
    (hhere : Lays (s.sections.get s.segment) items (t.sections.get s.segment))
    (hothers : ∀ seg, seg ≠ s.segment → t.sections.get seg = s.sections.get seg) :
    LaysAll s items t := by
  intro seg _
  by_cases hseg : seg = s.segment
  · have hall : items.filter (fun item => item.segment = seg) = items := by
      refine List.filter_eq_self.2 fun item hitem => ?_
      exact decide_eq_true ((hsegment item hitem).trans hseg.symm)
    rw [hall, hseg]
    exact hhere
  · have hnone : items.filter (fun item => item.segment = seg) = [] := by
      refine List.filter_eq_nil_iff.2 fun item hitem => ?_
      rw [hsegment item hitem, decide_eq_true_eq]
      exact Ne.symm hseg
    rw [hnone, hothers seg hseg]
    exact .refl _

end LaysAll

/-- Padding and an item are appended to the current segment. -/
theorem get_padTo_emit (s : State) (align : Nat) (bytes : ByteArray) (seg : Segment) :
    ((s.padTo align).emit bytes).sections.get seg =
      if seg = s.segment then (s.padTo align).sections.get seg ++ bytes else s.sections.get seg := by
  have hemit := get_append (s.padTo align).bindLabels bytes seg
  have hsegment : (s.padTo align).bindLabels.segment = s.segment := rfl
  rw [hsegment] at hemit
  rw [State.emit, hemit]
  split
  · rfl
  · rename_i hother
    have hpad := get_append s (Bytes.zeros (State.padding s.filled align)) seg
    rw [if_neg hother, ByteArray.append_empty] at hpad
    rw [ByteArray.append_empty]
    exact hpad

theorem lays_padTo (s : State) (align : Nat) :
    Lays (s.sections.get s.segment) [] ((s.padTo align).sections.get s.segment) := by
  have hpad := get_append s (Bytes.zeros (State.padding s.filled align)) s.segment
  rw [if_pos rfl] at hpad
  rw [State.padTo, hpad]
  exact .zeros _ _

/-- The item that is emitted behind padding. -/
theorem laysAll_item (s : State) (align : Nat) (bytes : List UInt8) :
    LaysAll s [s.item align bytes] ((s.padTo align).emit (Bytes.ofList bytes)) := by
  refine .here (by simp [State.item]) ?_ fun seg hother => ?_
  · rw [get_padTo_emit, if_pos rfl]
    exact (lays_padTo s align).trans (.item (s.item align bytes) rfl)
  · rw [get_padTo_emit, if_neg hother]

theorem laysAll_scalars (align : Nat) (items : List (List UInt8)) (s : State) :
    LaysAll s (s.scalarItems align items) (s.emitScalars align items) := by
  induction items generalizing s with
  | nil => exact .of_same fun _ _ => rfl
  | cons bytes rest ih => exact (laysAll_item s align bytes).trans (ih _)

theorem segment_copyItems {segment : Segment} {asked : Option Nat} {block : List UInt8} {gap n offset : Nat} :
    ∀ item ∈ copyItems segment asked block gap n offset, item.segment = segment ∧ item.asked = asked := by
  induction n generalizing offset with
  | zero => simp [copyItems]
  | succ n ih =>
      intro item hitem
      rcases List.mem_cons.1 hitem with rfl | hrest
      · exact ⟨rfl, rfl⟩
      · exact ih item hrest

theorem laysAll_copies (s : State) (align : Nat) (block : List UInt8) (gap n : Nat) :
    LaysAll s (copyItems s.segment s.align block gap n (s.padTo align).filled)
      ((s.padTo align).emit (copies block gap n ByteArray.empty)) := by
  refine .here (fun item hitem => (segment_copyItems item hitem).1) ?_ fun seg hother => ?_
  · rw [get_padTo_emit, if_pos rfl, ← copies_append]
    exact (lays_padTo s align).trans (.copies _ _ _ _ _ _)
  · rw [get_padTo_emit, if_neg hother]

/-- A directive of a data segment writes its items. -/
theorem Writes.lays {s t : State} {name args : Text} {d : DataDirective} (hname : dataDirective? name = some d)
    (h : Writes s args d t) : LaysAll s (s.dataItems name args) t := by
  rw [State.dataItems, hname]
  cases h with
  | aligns => exact .of_same fun _ _ => rfl
  | @zeros n hn =>
      have hzeros : Bytes.zeros n = Bytes.ofList (List.replicate n 0) := by
        rw [← Bytes.toList_zeros, Bytes.ofList_toList]
      simp only [hn, hzeros]
      exact laysAll_item s _ _
  | text ht hbytes =>
      simp only [ht, hbytes]
      exact laysAll_item s _ _
  | repeatsNone hn =>
      simp only [hn]
      split
      · rename_i hcount _
        cases hcount
        exact .of_same fun _ _ => rfl
      · exact .of_same fun _ _ => rfl
  | repeats hn hblock =>
      simp only [hn, hblock]
      exact laysAll_copies s _ _ _ _
  | scalars hitems =>
      simp only [hitems]
      exact laysAll_scalars _ _ s

/-- A deed writes its items. -/
theorem Deed.lays {d : Deed} {t : State} (h : d.result = .ok t) : LaysAll d.state d.items t := by
  obtain ⟨s, act⟩ := d
  cases act with
  | labels text =>
      obtain rfl := declareAll_eq_ok h
      exact .of_same fun _ _ => rfl
  | directive name args labelled =>
      have hnone (hname : dataDirective? name = none) :
          Deed.items ⟨s, .directive name args labelled⟩ = [] := by
        simp [items, State.dataItems, hname]
      cases directive_cases h with
      | enters segment hname =>
          rw [hnone (dataDirective?_of_segmentOf? hname)]
          refine .of_same fun seg _ => ?_
          simp only [State.enter]
          split <;> split <;> rfl
      | kernelStart hname | entry hname | externs hname =>
          rw [hnone hname]
          exact .of_same fun _ _ => rfl
      | globals hname labels =>
          rw [hnone hname]
          refine .of_same fun seg _ => ?_
          rw [(addGlobal_same labels ⟨rfl, rfl, rfl, rfl, rfl, rfl⟩).sections]
      | data hdata hname hwrites =>
          simp only [items, hdata, Bool.false_eq_true, if_false]
          exact hwrites.lays hname
  | instruction line =>
      obtain ⟨c, hc, rfl⟩ := instruction_eq_ok h
      refine .of_same fun seg hdata => ?_
      have hother : seg ≠ s.segment := by
        rintro rfl
        rw [(codedLine_eq_ok hc).1] at hdata
        cases hdata
      have happend := get_append s.bindLabels (Bytes.ofList (wordBytes c.codes)) seg
      have hsegment : s.bindLabels.segment = s.segment := rfl
      rw [hsegment, if_neg hother, ByteArray.append_empty] at happend
      exact happend

/-- A run writes the items of its deeds one after the other. -/
theorem Course.lays {s t : State} {deeds : List Deed} (h : Course Passes s deeds (.ok t)) :
    LaysAll s (deeds.flatMap Deed.items) t := by
  have haside {u v : State} (hsteps : Relation.ReflTransGen Passes u v) : LaysAll u [] v :=
    .of_same fun _ _ => by rw [(Passes.sameObject hsteps).sections]
  induction h using Course.ok_induction with
  | ends h => exact haside h
  | does h hdeed _ ih => exact ((haside h).trans (Deed.lays hdeed)).trans ih

/-! ### Alignment -/

/-- The offset of the item is a multiple of what is asked for, which is an alignment. -/
def Item.Aligned (item : Item) : Prop := ∀ n, item.asked = some n → IsAlignment n ∧ n ∣ item.offset

/-- What is asked for is an alignment. -/
def Asked (s : State) : Prop := ∀ n, s.align = some n → IsAlignment n

theorem IsAlignment.pos {n : Nat} (h : IsAlignment n) : 0 < n := by
  obtain ⟨k, -, rfl⟩ := h
  exact Nat.two_pow_pos k

theorem dvd_add_padding {align : Nat} (h : 0 < align) (size : Nat) :
    align ∣ size + State.padding size align := by
  have hsize := Nat.div_add_mod size align
  have hlt := Nat.mod_lt size h
  rw [State.padding]
  by_cases hrest : size % align = 0
  · rw [hrest, Nat.sub_zero, Nat.mod_self, Nat.add_zero]
    exact Nat.dvd_of_mod_eq_zero hrest
  · rw [Nat.mod_eq_of_lt (by omega : align - size % align < align)]
    refine ⟨size / align + 1, ?_⟩
    rw [Nat.mul_add, Nat.mul_one]
    omega

theorem filled_padTo (s : State) (align : Nat) :
    (s.padTo align).filled = s.filled + State.padding s.filled align := by
  have hpad := get_append s (Bytes.zeros (State.padding s.filled align)) s.segment
  rw [if_pos rfl] at hpad
  have hsize := congrArg ByteArray.size hpad
  rw [ByteArray.size_append, Bytes.size_zeros] at hsize
  exact hsize

theorem dvd_filled_padTo (s : State) {align : Nat} (h : 0 < align) : align ∣ (s.padTo align).filled := by
  rw [filled_padTo]
  exact dvd_add_padding h s.filled

theorem le_roundUpNat {align : Nat} (h : 0 < align) (size : Nat) : size ≤ Bytes.roundUpNat size align := by
  have hdiv := Nat.div_add_mod (size + align - 1) align
  have hlt := Nat.mod_lt (size + align - 1) h
  rw [Nat.mul_comm] at hdiv
  rw [Bytes.roundUpNat]
  omega

theorem aligned_item {s : State} (hs : Asked s) {align : Nat} (halign : ∀ n, s.align = some n → align = n)
    (bytes : List UInt8) : (s.item align bytes).Aligned := by
  intro n hn
  have hasked := hs n hn
  obtain rfl := halign n hn
  exact ⟨hasked, dvd_filled_padTo s hasked.pos⟩

theorem alignment_eq {s : State} (natural n : Nat) (h : s.align = some n) : s.alignment natural = n := by
  rw [State.alignment, h, Option.getD_some]

theorem aligned_scalarItems {s : State} (hs : Asked s) {align : Nat}
    (halign : ∀ n, s.align = some n → align = n) (items : List (List UInt8)) :
    ∀ item ∈ s.scalarItems align items, item.Aligned := by
  induction items generalizing s with
  | nil => simp [State.scalarItems]
  | cons bytes rest ih =>
      intro item hitem
      rcases List.mem_cons.1 hitem with rfl | hrest
      · exact aligned_item hs halign bytes
      · exact ih (s := (s.padTo align).emit (Bytes.ofList bytes)) hs halign item hrest

theorem aligned_copyItems {segment : Segment} {asked : Option Nat} {block : List UInt8} {gap n offset : Nat}
    (h : ∀ align, asked = some align → IsAlignment align ∧ align ∣ block.length + gap ∧ align ∣ offset) :
    ∀ item ∈ copyItems segment asked block gap n offset, item.Aligned := by
  induction n generalizing offset with
  | zero => simp [copyItems]
  | succ n ih =>
      intro item hitem
      rcases List.mem_cons.1 hitem with rfl | hrest
      · intro align halign
        exact ⟨(h align halign).1, (h align halign).2.2⟩
      · refine ih (fun align halign => ?_) item hrest
        obtain ⟨hasked, hstride, hoffset⟩ := h align halign
        exact ⟨hasked, hstride, Nat.dvd_add hoffset hstride⟩

/-- The items of a directive are aligned. -/
theorem aligned_dataItems {s : State} (hs : Asked s) (name args : Text) :
    ∀ item ∈ s.dataItems name args, item.Aligned := by
  rw [State.dataItems]
  split
  · split
    · exact aligned_scalarItems hs (fun n => alignment_eq _ n) _
    · simp
  · split
    · simpa using aligned_item hs (fun n => alignment_eq _ n) _
    · simp
  · split
    · split
      · simpa using aligned_item hs (fun n => alignment_eq _ n) _
      · simp
    · simp
  · split
    · rename_i block _ _
      refine aligned_copyItems fun align halign => ?_
      have hasked := hs align halign
      rw [alignment_eq _ align halign, Nat.add_sub_cancel' (le_roundUpNat hasked.pos _)]
      exact ⟨hasked, Nat.dvd_mul_left _ _, dvd_filled_padTo s hasked.pos⟩
    · simp
  · simp
  · simp

theorem segment_scalarItems (s : State) (align : Nat) (items : List (List UInt8)) :
    ∀ item ∈ s.scalarItems align items, item.segment = s.segment := by
  induction items generalizing s with
  | nil => simp [State.scalarItems]
  | cons bytes rest ih =>
      intro item hitem
      rcases List.mem_cons.1 hitem with rfl | hrest
      · rfl
      · exact ih ((s.padTo align).emit (Bytes.ofList bytes)) item hrest

theorem segment_dataItems (s : State) (name args : Text) :
    ∀ item ∈ s.dataItems name args, item.segment = s.segment := by
  rw [State.dataItems]
  split
  · split
    · exact segment_scalarItems s _ _
    · simp
  · split <;> simp [State.item]
  · split
    · split <;> simp [State.item]
    · simp
  · split
    · exact fun item hitem => (segment_copyItems item hitem).1
    · simp
  · simp
  · simp

/-- The items of a deed lie in a data segment, aligned as asked. -/
theorem Deed.aligned {d : Deed} (h : Asked d.state) :
    ∀ item ∈ d.items, item.segment.isCode = false ∧ item.Aligned := by
  obtain ⟨s, act⟩ := d
  cases act with
  | labels | instruction => simp [items]
  | directive name args labelled =>
      simp only [items]
      split
      · simp
      · rename_i hdata
        intro item hitem
        rw [segment_dataItems s name args item hitem]
        exact ⟨by simpa using hdata, aligned_dataItems h name args item hitem⟩

theorem align_emitScalars (align : Nat) (items : List (List UInt8)) (s : State) :
    (s.emitScalars align items).align = s.align := by
  induction items generalizing s with
  | nil => rfl
  | cons bytes rest ih => exact ih _

theorem align_addGlobal (labels : List Text) (s : State) :
    (labels.foldl State.addGlobal s).align = s.align := by
  induction labels generalizing s with
  | nil => rfl
  | cons label rest ih => exact ih _

namespace Asked

variable {s t : State}

theorem of_same (h : Asked s) (halign : t.align = s.align) : Asked t := by
  rw [Asked, halign]
  exact h

/-- A directive asks for an alignment, for none, or for what was asked before. -/
theorem directs (h : Asked s) {name args : Text} (hdirects : Directs s name args t) : Asked t := by
  cases hdirects with
  | enters segment =>
      cases hcode : segment.isCode with
      | true =>
          refine h.of_same ?_
          simp only [State.enter, hcode, if_true]
          split <;> rfl
      | false => simp [Asked, State.enter, hcode]
  | kernelStart | entry | externs => exact h
  | globals _ labels => exact h.of_same (align_addGlobal labels s)
  | data _ _ hwrites =>
      cases hwrites with
      | aligns hn =>
          rintro n ⟨⟩
          exact hn
      | scalars => exact h.of_same (align_emitScalars _ _ s)
      | _ => exact h

theorem deed {d : Deed} (h : Asked d.state) (hdeed : d.result = .ok t) : Asked t := by
  obtain ⟨s, act⟩ := d
  cases act with
  | labels text =>
      obtain rfl := declareAll_eq_ok hdeed
      exact h
  | directive name args labelled => exact h.directs (directive_cases hdeed)
  | instruction line =>
      obtain ⟨c, -, rfl⟩ := instruction_eq_ok hdeed
      exact h

theorem passes (h : Asked s) (hsteps : Relation.ReflTransGen Passes s t) : Asked t := by
  induction hsteps with
  | refl => exact h
  | tail _ hstep ih =>
      cases hstep with
      | reads => exact ih
      | aside haside => cases haside <;> exact ih

end Asked

/-- The items of a run are aligned as asked. -/
theorem Course.aligned {s : State} {deeds : List Deed} {result : Except Failure State}
    (h : Course Passes s deeds result) (hs : Asked s) :
    ∀ item ∈ deeds.flatMap Deed.items, item.segment.isCode = false ∧ item.Aligned := by
  induction h with
  | ends | fails => simp
  | does h hdeed _ ih =>
      have hhere := hs.passes h
      intro item hitem
      rw [List.flatMap_cons, List.mem_append] at hitem
      rcases hitem with hfirst | hrest
      · exact Deed.aligned hhere item hfirst
      · exact ih (hhere.deed hdeed) item hrest
  | breaks h =>
      intro item hitem
      rw [List.flatMap_singleton] at hitem
      exact Deed.aligned (hs.passes h) item hitem

end Assembler

end VectorRisc
