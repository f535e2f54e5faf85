/-
Module: VectorRisc.Proofs.Object.Layout
Layer: Proofs
Purpose: How the linker lays out code. The code sections of well-formed objects follow each other without
  gaps from the segment's address, each of them whole, and none reaches the end of the address space.
Imports: Mathlib.Tactic, VectorRisc.Proofs.Object.WellFormed, VectorRisc.Proofs.Outcome
Trusted boundary: none
Main exports: Linker.Spread, Linker.Layout.offsetOf, Linker.layOut_spread, Linker.layOutAll_spread
Open obligations: none
-/
import Mathlib.Tactic
import VectorRisc.Proofs.Object.WellFormed
import VectorRisc.Proofs.Outcome

namespace VectorRisc

namespace Bytes

/-- Clearing the low two bits rounds down to a multiple of four. -/
theorem toNat_and_not_three (x : UInt64) : (x &&& ~~~(3 : UInt64)).toNat = x.toNat / 4 * 4 := by
  have hshift : x &&& ~~~(3 : UInt64) = (x >>> 2) <<< 2 := by
    apply UInt64.toBitVec_inj.1
    ext i hi
    interval_cases i <;> simp
  rw [hshift, UInt64.toNat_shiftLeft, UInt64.toNat_shiftRight]
  have hx := x.toNat_lt
  simp [Nat.shiftLeft_eq, Nat.shiftRight_eq_div_pow]
  omega

/-- A multiple of four is its own round-up, unless rounding leaves the address space. -/
theorem roundUp_four {n : Nat} (h : 4 ∣ n) (hn : n + 4 ≤ 2 ^ 64) :
    (roundUp (UInt64.ofNat n) 4).toNat = n := by
  have hmask : (4 : UInt64) - 1 = 3 := rfl
  rw [roundUp, hmask, toNat_and_not_three]
  simp only [UInt64.toNat_sub, UInt64.toNat_add, UInt64.toNat_ofNat']
  simp
  omega

end Bytes

namespace Linker

/-! ### The order of the inputs -/

theorem order_perm (inputs : List Input) (s : Segment) :
    (order inputs s).Perm ((List.range inputs.length).zip inputs) :=
  List.filter_append_perm _ _

/-- Every input has its place in the order. -/
theorem mem_order {inputs : List Input} {s : Segment} {index : Nat} {input : Input} :
    (index, input) ∈ order inputs s ↔ inputs[index]? = some input := by
  rw [(order_perm inputs s).mem_iff, List.mem_iff_getElem?]
  constructor
  · rintro ⟨i, hi⟩
    rw [List.getElem?_zip_eq_some] at hi
    obtain ⟨hindex, hinput⟩ := hi
    rw [List.getElem?_range (List.getElem?_eq_some_iff.1 hinput).1, Option.some.injEq] at hindex
    obtain rfl : i = index := hindex
    exact hinput
  · intro hinput
    refine ⟨index, ?_⟩
    rw [List.getElem?_zip_eq_some]
    exact ⟨List.getElem?_range (List.getElem?_eq_some_iff.1 hinput).1, hinput⟩

/-- No place is taken twice. -/
theorem nodup_order (inputs : List Input) (s : Segment) : ((order inputs s).map Prod.fst).Nodup := by
  have hperm := (order_perm inputs s).map Prod.fst
  rw [List.map_fst_zip (by simp)] at hperm
  exact hperm.nodup_iff.2 List.nodup_range

/-! ### Code that is laid out -/

/-- Where the section of an input starts in an image laid out from an address. -/
def Layout.offsetOf (layout : Layout) (addr : UInt64) (index : Nat) : Nat :=
  (layout.baseOf index - addr).toNat

/-- The bytes of an input in a segment. -/
def Input.bytes (input : Input) (s : Segment) : ByteArray := (input.file.sections.get s).data

/-- The code of some inputs is laid out from an address: each section whole on a word, no two of them
    on a common byte, all within the image, and the image within the address space. -/
structure Spread (s : Segment) (addr : UInt64) (done : List (Nat × Input)) (layout : Layout) : Prop where
  code : 4 ∣ layout.image.size
  fits : addr.toNat + layout.image.size < 2 ^ 64
  aligned : ∀ p ∈ done, 4 ∣ layout.offsetOf addr p.1
  inside : ∀ p ∈ done, layout.offsetOf addr p.1 + (p.2.bytes s).size ≤ layout.image.size
  whole : ∀ p ∈ done, ∀ k n, k + 4 * n ≤ (p.2.bytes s).size →
    Bytes.wordsAt layout.image (layout.offsetOf addr p.1 + k) n = Bytes.wordsAt (p.2.bytes s) k n
  apart : ∀ p ∈ done, ∀ q ∈ done, p.1 ≠ q.1 →
    layout.offsetOf addr p.1 + (p.2.bytes s).size ≤ layout.offsetOf addr q.1 ∨
      layout.offsetOf addr q.1 + (q.2.bytes s).size ≤ layout.offsetOf addr p.1

/-- A code section of a well-formed object takes as much memory as it has bytes. -/
theorem size_section {file : ObjectFile} (h : file.WellFormed) (s : Segment) :
    (file.sections.get s).size.toNat = (file.sections.get s).data.size := by
  have hsize : (Bytes.size64 (file.sections.get s).data).toNat = (file.sections.get s).data.size :=
    UInt64.toNat_ofNat_of_lt' (lt_of_le_of_lt (h.size s) (by decide))
  rw [Section.size, h.memSize s]
  split
  · exact hsize
  · rename_i hzero
    rw [UInt64.lt_iff_toNat_lt, hsize] at hzero
    have hbytes : (0 : UInt64).toNat = 0 := rfl
    omega

/-- An image that ends on a word is extended by a section without gaps. -/
theorem append_eq {image : ByteArray} {content : Section} (h : content.size.toNat = content.data.size) :
    append image image.size content = image ++ content.data := by
  have hzero : Bytes.zeros 0 = ByteArray.empty := by
    rw [Bytes.zeros]
    rfl
  rw [append, h, Nat.sub_self, Nat.sub_self, hzero, ByteArray.append_empty, ByteArray.append_empty]

theorem offsetOf_cons_self (layout : Layout) (addr : UInt64) {n : Nat} (hn : n < 2 ^ 64)
    (image : ByteArray) (index : Nat) :
    Layout.offsetOf { image := image, bases := (index, addr + UInt64.ofNat n) :: layout.bases } addr
      index = n := by
  rw [Layout.offsetOf, Layout.baseOf, List.lookup_cons_self, Option.getD_some, UInt64.add_comm,
    UInt64.add_sub_cancel, UInt64.toNat_ofNat_of_lt' hn]

theorem offsetOf_cons_of_ne (layout : Layout) {addr base : UInt64} {index other : Nat}
    (h : other ≠ index) (image : ByteArray) :
    Layout.offsetOf { image := image, bases := (index, base) :: layout.bases } addr other =
      layout.offsetOf addr other := by
  rw [Layout.offsetOf, Layout.offsetOf, Layout.baseOf, Layout.baseOf, List.lookup_cons,
    beq_false_of_ne h]

namespace Spread

variable {s : Segment} {addr : UInt64} {done : List (Nat × Input)} {layout : Layout}

theorem nil (s : Segment) (addr : UInt64) : Spread s addr [] {} := by
  refine ⟨Nat.dvd_zero 4, addr.toNat_lt, ?_, ?_, ?_, ?_⟩
  all_goals simp

/-- The next section follows the ones before it. -/
theorem snoc (h : Spread s addr done layout) (hcode : s.isCode = true) {index : Nat} {input : Input}
    (hnew : index ∉ done.map Prod.fst) (hinput : input.file.WellFormed)
    (hfits : addr.toNat + layout.image.size + (input.bytes s).size < 2 ^ 64) :
    Spread s addr (done ++ [(index, input)])
      { image := layout.image ++ input.bytes s
        bases := (index, addr + UInt64.ofNat layout.image.size) :: layout.bases } := by
  have hsize : layout.image.size < 2 ^ 64 := by omega
  have hself := offsetOf_cons_self layout addr hsize (layout.image ++ input.bytes s) index
  have hother : ∀ p ∈ done, Layout.offsetOf
      { image := layout.image ++ input.bytes s
        bases := (index, addr + UInt64.ofNat layout.image.size) :: layout.bases } addr p.1 =
      layout.offsetOf addr p.1 := by
    intro p hp
    refine offsetOf_cons_of_ne layout ?_ _
    rintro rfl
    exact hnew (List.mem_map_of_mem hp)
  refine ⟨?_, ?_, ?_, ?_, ?_, ?_⟩
  · rw [ByteArray.size_append]
    exact Nat.dvd_add h.code (hinput.code s hcode)
  · rw [ByteArray.size_append]
    omega
  · intro p hp
    rcases List.mem_append.1 hp with hold | hlast
    · rw [hother p hold]
      exact h.aligned p hold
    · rw [List.mem_singleton.1 hlast, hself]
      exact h.code
  · intro p hp
    rw [ByteArray.size_append]
    rcases List.mem_append.1 hp with hold | hlast
    · rw [hother p hold]
      exact le_add_right (h.inside p hold)
    · rw [List.mem_singleton.1 hlast, hself]
  · intro p hp k n hk
    rcases List.mem_append.1 hp with hold | hlast
    · have hinside := h.inside p hold
      rw [hother p hold, Bytes.wordsAt_append_left _ (by omega)]
      exact h.whole p hold k n hk
    · rw [List.mem_singleton.1 hlast] at hk ⊢
      rw [hself, Bytes.wordsAt_append_right]
  · intro p hp q hq hne
    rcases List.mem_append.1 hp with hold | hlast
    · rcases List.mem_append.1 hq with hold' | hlast'
      · rw [hother p hold, hother q hold']
        exact h.apart p hold q hold' hne
      · rw [List.mem_singleton.1 hlast', hself, hother p hold]
        exact .inl (h.inside p hold)
    · rcases List.mem_append.1 hq with hold' | hlast'
      · rw [List.mem_singleton.1 hlast, hself, hother q hold']
        exact .inr (h.inside q hold')
      · rw [List.mem_singleton.1 hlast, List.mem_singleton.1 hlast'] at hne
        exact absurd rfl hne

end Spread

/-- A sum that does not pass its first summand has wrapped around. -/
theorem add_lt_of_not_lt {a b : UInt64} (h : ¬a + b < a) : a.toNat + b.toNat < 2 ^ 64 := by
  rw [UInt64.lt_iff_toNat_lt, UInt64.toNat_add] at h
  have ha := a.toNat_lt
  have hb := b.toNat_lt
  omega

/-- A section is laid out if it does not reach around the end of the address space and the image can be as
    long as it is with the section. -/
theorem layOut_cons_eq_ok_iff {s : Segment} {addr : UInt64} {index : Nat} {input : Input}
    {rest : List (Nat × Input)} {layout : Layout} {log : List Event} {out : Layout × List Event} :
    layOut s addr ((index, input) :: rest) layout log = .ok out ↔
      let sect := input.file.sections.get s
      let offset := Bytes.roundUp (Bytes.size64 layout.image) s.align
      let base := addr + offset
      ¬base + sect.size < base ∧ offset.toNat + sect.size.toNat ≤ Bytes.lengthMax ∧
        layOut s addr rest
          { image := append layout.image offset.toNat sect, bases := (index, base) :: layout.bases }
          (.placed input.name s base (base + sect.size) :: log) = .ok out := by
  simp only [layOut]
  split
  · rename_i hwraps
    simp [hwraps]
  · rename_i hroom
    split
    · rename_i hlong
      simp [Nat.not_le.2 hlong]
    · rename_i hshort
      simp [hroom, Nat.not_lt.1 hshort]

/-- The sections of a code segment are laid out one after the other. -/
theorem layOut_spread {s : Segment} (hcode : s.isCode = true) {addr : UInt64} (haddr : 4 ≤ addr.toNat)
    {done rest : List (Nat × Input)} {layout after : Layout} {log log' : List Event}
    (hdone : Spread s addr done layout) (hnodup : ((done ++ rest).map Prod.fst).Nodup)
    (hwell : ∀ p ∈ rest, p.2.file.WellFormed)
    (h : layOut s addr rest layout log = .ok (after, log')) : Spread s addr (done ++ rest) after := by
  induction rest generalizing done layout log with
  | nil =>
      cases h
      rwa [List.append_nil]
  | cons p rest ih =>
      obtain ⟨index, input⟩ := p
      have hinput := hwell (index, input) List.mem_cons_self
      have halign : s.align = 4 := by rw [Segment.align, if_pos hcode]
      have hoffset : (Bytes.roundUp (Bytes.size64 layout.image) s.align).toNat = layout.image.size := by
        have hfits := hdone.fits
        rw [halign]
        exact Bytes.roundUp_four hdone.code (by omega)
      have hbase : Bytes.roundUp (Bytes.size64 layout.image) s.align =
          UInt64.ofNat layout.image.size := by
        rw [← hoffset, UInt64.ofNat_toNat]
      obtain ⟨hstop, -, hrest⟩ := layOut_cons_eq_ok_iff.1 h
      have hsize := size_section hinput s
      have hfits : addr.toNat + layout.image.size + (input.bytes s).size < 2 ^ 64 := by
        have hnowrap := add_lt_of_not_lt hstop
        have hstart : (addr + UInt64.ofNat layout.image.size).toNat =
            addr.toNat + layout.image.size := by
          have himage := hdone.fits
          rw [UInt64.toNat_add, UInt64.toNat_ofNat']
          omega
        rw [hbase, hstart, hsize] at hnowrap
        exact hnowrap
      rw [hoffset, append_eq hsize, hbase] at hrest
      have hnew : index ∉ done.map Prod.fst := by
        rw [List.map_append, List.map_cons] at hnodup
        exact fun hmem => (List.nodup_append.1 hnodup).2.2 index hmem index List.mem_cons_self rfl
      have hnext := hdone.snoc hcode hnew hinput hfits
      have hall := ih hnext (by simpa using hnodup)
        (fun q hq => hwell q (List.mem_cons_of_mem _ hq)) hrest
      simpa using hall

/-- The parts of a layout of all segments. -/
theorem layOutAll_eq_ok {inputs : List Input} {layouts : PerSegment Layout} {log : List Event}
    (h : layOutAll inputs = .ok (layouts, log)) (s : Segment) :
    ∃ before after, layOut s (segmentAddr inputs s) (order inputs s) {} before =
      .ok (layouts.get s, after) := by
  rw [layOutAll] at h
  obtain ⟨⟨text, log1⟩, htext, h⟩ := bind_eq_ok.1 h
  obtain ⟨⟨data, log2⟩, hdata, h⟩ := bind_eq_ok.1 h
  obtain ⟨⟨ktext, log3⟩, hktext, h⟩ := bind_eq_ok.1 h
  obtain ⟨⟨kdata, log4⟩, hkdata, h⟩ := bind_eq_ok.1 h
  cases h
  cases s with
  | text => exact ⟨_, _, htext⟩
  | data => exact ⟨_, _, hdata⟩
  | ktext => exact ⟨_, _, hktext⟩
  | kdata => exact ⟨_, _, hkdata⟩

/-- Well-formed objects leave every segment at its fixed address. -/
theorem segmentAddr_eq {inputs : List Input} (hwell : ∀ input ∈ inputs, input.file.WellFormed)
    (s : Segment) : segmentAddr inputs s = s.base := by
  rw [segmentAddr]
  split
  · rename_i input hfound
    split at hfound
    · exact (hwell input (List.mem_of_find?_eq_some hfound)).addr s
    · cases hfound
  · rfl

/-- The code of well-formed objects is laid out from the segment's fixed address. -/
theorem layOutAll_spread {inputs : List Input} {layouts : PerSegment Layout} {log : List Event}
    (hwell : ∀ input ∈ inputs, input.file.WellFormed) (h : layOutAll inputs = .ok (layouts, log))
    {s : Segment} (hcode : s.isCode = true) :
    Spread s s.base (order inputs s) (layouts.get s) := by
  obtain ⟨before, after, hlaid⟩ := layOutAll_eq_ok h s
  rw [segmentAddr_eq hwell s] at hlaid
  have hbase : 4 ≤ s.base.toNat := by cases s <;> decide
  have hall : Spread s s.base ([] ++ order inputs s) (layouts.get s) := by
    refine layOut_spread hcode hbase (Spread.nil s s.base) (nodup_order inputs s) ?_ hlaid
    intro p hp
    exact hwell p.2 (List.mem_of_getElem? (mem_order.1 hp))
  exact hall

end Linker

end VectorRisc
