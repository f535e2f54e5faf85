/-
Module: VectorRisc.Proofs.Object.Tiling
Layer: Proofs
Purpose: How the linker lays out any segment of any objects. Each section is whole at an aligned offset,
  after the ones before it in the order of the segment; what lies between two sections is zero, and
  nothing lies between sections that end on the alignment.
Imports: Mathlib.Tactic, VectorRisc.Proofs.Object.Layout
Trusted boundary: none
Main exports: Bytes.dvd_roundUp, Bytes.roundUp_bounds, Linker.Input.extent, Linker.Tiling,
  Linker.layOut_tiling, Linker.Precedes, Linker.order_precedes, Linker.entryFrom_kernelStart
Open obligations: none
-/
import Mathlib.Tactic
import VectorRisc.Proofs.Object.Layout

namespace VectorRisc

namespace Bytes

/-! ### Alignment -/

/-- Clearing the low bits of a value rounds it down. -/
theorem toNat_and_not_mask (x : UInt64) {mask : UInt64} {k : Nat} (hmask : mask.toNat = 2 ^ k - 1) :
    (x &&& ~~~mask).toNat = x.toNat / 2 ^ k * 2 ^ k := by
  apply Nat.eq_of_testBit_eq
  intro i
  have hnot : (~~~mask).toNat = 2 ^ 64 - (2 ^ k - 1 + 1) := by
    rw [UInt64.toNat_not, hmask, UInt64.size]
    omega
  have hlt : 2 ^ k - 1 < 2 ^ 64 := hmask ▸ mask.toNat_lt
  rw [UInt64.toNat_and, Nat.testBit_and, hnot, Nat.testBit_two_pow_sub_succ hlt,
    Nat.testBit_two_pow_sub_one, Nat.testBit_mul_two_pow, Nat.testBit_div_two_pow]
  by_cases hhigh : k ≤ i
  · by_cases hin : i < 64
    · simp [hhigh, hin, Nat.sub_add_cancel hhigh]
    · have hzero : x.toNat.testBit i = false :=
        Nat.testBit_lt_two_pow (lt_of_lt_of_le x.toNat_lt (Nat.pow_le_pow_right (by norm_num) (by omega)))
      simp [hzero, Nat.sub_add_cancel hhigh]
  · simp [hhigh, Nat.lt_of_not_le hhigh]

theorem toNat_alignMask {align : UInt64} {k : Nat} (halign : align.toNat = 2 ^ k) :
    (align - 1).toNat = 2 ^ k - 1 := by
  have hone : (1 : UInt64) ≤ align := UInt64.le_iff_toNat_le.2 (halign ▸ Nat.two_pow_pos k)
  rw [UInt64.toNat_sub_of_le _ _ hone, halign, UInt64.toNat_one]

/-- A number that is rounded up is a multiple of the alignment. -/
theorem dvd_roundUp (value : UInt64) {align : UInt64} {k : Nat} (halign : align.toNat = 2 ^ k) :
    align.toNat ∣ (roundUp value align).toNat := by
  rw [roundUp, toNat_and_not_mask _ (toNat_alignMask halign), halign]
  exact Nat.dvd_mul_left _ _

/-- Rounding up gives the next multiple, unless it leaves the address space. -/
theorem roundUp_bounds {n k : Nat} {align : UInt64} (halign : align.toNat = 2 ^ k)
    (hn : n + align.toNat ≤ 2 ^ 64) :
    align.toNat ∣ (roundUp (UInt64.ofNat n) align).toNat ∧
      n ≤ (roundUp (UInt64.ofNat n) align).toNat ∧
      (roundUp (UInt64.ofNat n) align).toNat < n + align.toNat := by
  have hpos : 0 < align.toNat := halign ▸ Nat.two_pow_pos k
  have hsum : (UInt64.ofNat n + align - 1).toNat = n + align.toNat - 1 := by
    simp only [UInt64.toNat_sub, UInt64.toNat_add, UInt64.toNat_ofNat', UInt64.toNat_one]
    omega
  refine ⟨dvd_roundUp _ halign, ?_⟩
  rw [roundUp, toNat_and_not_mask _ (toNat_alignMask halign), hsum, ← halign]
  have hmod := Nat.div_add_mod (n + align.toNat - 1) align.toNat
  have hlt := Nat.mod_lt (n + align.toNat - 1) hpos
  rw [Nat.mul_comm] at hmod
  exact ⟨by omega, by omega⟩

end Bytes

/-- Every alignment is a power of two. -/
theorem Segment.align_pow (s : Segment) : ∃ k, s.align.toNat = 2 ^ k := by
  cases s with
  | text => exact ⟨2, rfl⟩
  | data => exact ⟨5, rfl⟩
  | ktext => exact ⟨2, rfl⟩
  | kdata => exact ⟨5, rfl⟩

namespace Linker

/-! ### One section -/

/-- The number of bytes that an input takes in a segment, its zeros included. -/
def Input.extent (input : Input) (s : Segment) : Nat := (input.file.sections.get s).size.toNat

/-- A section takes at least the bytes it has. -/
theorem Input.size_bytes_le {input : Input} {s : Segment} (h : (input.bytes s).size < 2 ^ 64) :
    (input.bytes s).size ≤ input.extent s := by
  have hsize : (Bytes.size64 (input.bytes s)).toNat = (input.bytes s).size := Bytes.toNat_size64 h
  exact hsize ▸ Section.size64_le_size (input.file.sections.get s)

/-- Zeros after an image change none of its bytes. -/
theorem byteAt_append_zeros (image : ByteArray) (n o : Nat) :
    Bytes.byteAt (image ++ Bytes.zeros n) o = Bytes.byteAt image o := by
  by_cases ho : o < image.size
  · exact Bytes.byteAt_append_left _ ho
  · have hplace : o = image.size + (o - image.size) := by omega
    rw [hplace, Bytes.byteAt_append_right, Bytes.byteAt_zeros, Bytes.byteAt_of_le (by omega)]

/-- The bytes of an image that a section is appended to. -/
theorem byteAt_append {image : ByteArray} {offset : Nat} (h : image.size ≤ offset) (c : Section)
    (o : Nat) : Bytes.byteAt (append image offset c) o =
      if o < offset then Bytes.byteAt image o else Bytes.byteAt c.data (o - offset) := by
  have hfront : (image ++ Bytes.zeros (offset - image.size)).size = offset := by
    rw [ByteArray.size_append, Bytes.size_zeros]
    omega
  rw [append, byteAt_append_zeros]
  split
  · rename_i ho
    rw [Bytes.byteAt_append_left _ (by omega), byteAt_append_zeros]
  · rename_i ho
    have hplace : o = (image ++ Bytes.zeros (offset - image.size)).size + (o - offset) := by omega
    conv_lhs => rw [hplace]
    rw [Bytes.byteAt_append_right]

theorem size_append {image : ByteArray} {offset : Nat} (h : image.size ≤ offset) {input : Input}
    {s : Segment} (hbytes : (input.bytes s).size ≤ input.extent s) :
    (append image offset (input.file.sections.get s)).size = offset + input.extent s := by
  simp only [Input.bytes, Input.extent] at hbytes ⊢
  simp only [append, ByteArray.size_append, Bytes.size_zeros]
  omega

/-! ### All sections -/

/-- The sections of some inputs tile an image: each one whole at an aligned offset, after the ones before
    it; zeros in between, and nothing in between where sections end on the alignment. -/
structure Tiling (s : Segment) (addr : UInt64) (done : List (Nat × Input)) (layout : Layout) : Prop where
  aligned : ∀ p ∈ done, s.align.toNat ∣ layout.offsetOf addr p.1
  inside : ∀ p ∈ done, layout.offsetOf addr p.1 + p.2.extent s ≤ layout.image.size
  ordered : done.Pairwise fun p q => layout.offsetOf addr p.1 + p.2.extent s ≤ layout.offsetOf addr q.1
  bytes : ∀ p ∈ done, ∀ k < p.2.extent s,
    Bytes.byteAt layout.image (layout.offsetOf addr p.1 + k) = Bytes.byteAt (p.2.bytes s) k
  gaps : ∀ o, (∀ p ∈ done, o < layout.offsetOf addr p.1 ∨ layout.offsetOf addr p.1 + p.2.extent s ≤ o) →
    Bytes.byteAt layout.image o = 0
  tight : (∀ p ∈ done, s.align.toNat ∣ p.2.extent s) → s.align.toNat ∣ layout.image.size ∧
    ∀ o < layout.image.size, ∃ p ∈ done,
      layout.offsetOf addr p.1 ≤ o ∧ o < layout.offsetOf addr p.1 + p.2.extent s

namespace Tiling

variable {s : Segment} {addr : UInt64} {done : List (Nat × Input)} {layout : Layout}

theorem nil (s : Segment) (addr : UInt64) : Tiling s addr [] {} := by
  refine ⟨?_, ?_, .nil, ?_, fun _ _ => rfl, fun _ => ⟨Nat.dvd_zero _, ?_⟩⟩
  · simp
  · simp
  · simp
  · intro o ho
    cases ho

/-- The next section is put at an aligned offset behind the image. -/
theorem snoc (h : Tiling s addr done layout) {index offset : Nat} {input : Input}
    (hnew : index ∉ done.map Prod.fst) (hbytes : (input.bytes s).size ≤ input.extent s)
    (hfits : offset < 2 ^ 64) (haligned : s.align.toNat ∣ offset) (hbehind : layout.image.size ≤ offset)
    (hnext : offset < layout.image.size + s.align.toNat) :
    Tiling s addr (done ++ [(index, input)])
      { image := append layout.image offset (input.file.sections.get s)
        bases := (index, addr + UInt64.ofNat offset) :: layout.bases } := by
  set after : Layout :=
    { image := append layout.image offset (input.file.sections.get s)
      bases := (index, addr + UInt64.ofNat offset) :: layout.bases }
  have hself : after.offsetOf addr index = offset := offsetOf_cons_self layout addr hfits _ index
  have hother : ∀ p ∈ done, after.offsetOf addr p.1 = layout.offsetOf addr p.1 := by
    intro p hp
    refine offsetOf_cons_of_ne layout ?_ _
    rintro rfl
    exact hnew (List.mem_map_of_mem hp)
  have hsize : after.image.size = offset + input.extent s := size_append hbehind hbytes
  have hbyte : ∀ o, Bytes.byteAt after.image o =
      if o < offset then Bytes.byteAt layout.image o else Bytes.byteAt (input.bytes s) (o - offset) :=
    byteAt_append hbehind (input.file.sections.get s)
  -- a statement on all inputs is one on those before and one on the new one
  have hsplit : ∀ {P : Nat × Input → Prop}, (∀ p ∈ done, P p) → P (index, input) →
      ∀ p ∈ done ++ [(index, input)], P p := by
    intro P hold hlast p hp
    rcases List.mem_append.1 hp with hp | hp
    · exact hold p hp
    · rw [List.mem_singleton.1 hp]
      exact hlast
  refine ⟨hsplit ?_ ?_, hsplit ?_ ?_, ?_, hsplit ?_ ?_, ?_, ?_⟩
  · intro p hp
    rw [hother p hp]
    exact h.aligned p hp
  · rw [hself]
    exact haligned
  · intro p hp
    have hinside := h.inside p hp
    rw [hother p hp, hsize]
    omega
  · rw [hself, hsize]
  · refine List.pairwise_append.2 ⟨?_, List.pairwise_singleton _ _, ?_⟩
    · refine h.ordered.imp_of_mem ?_
      intro p q hp hq hpq
      rw [hother p hp, hother q hq]
      exact hpq
    · intro p hp q hq
      have hinside := h.inside p hp
      rw [List.mem_singleton.1 hq, hself, hother p hp]
      omega
  · intro p hp k hk
    have hinside := h.inside p hp
    rw [hother p hp, hbyte, if_pos (by omega)]
    exact h.bytes p hp k hk
  · intro k _
    rw [hself, hbyte, if_neg (by omega), Nat.add_sub_cancel_left]
  · intro o ho
    rw [hbyte]
    split
    · refine h.gaps o fun p hp => ?_
      rw [← hother p hp]
      exact ho p (List.mem_append_left _ hp)
    · have hlast := ho (index, input) (by simp)
      rw [hself] at hlast
      exact Bytes.byteAt_of_le (by simp only at hlast; omega)
  · intro hall
    obtain ⟨hwhole, hcover⟩ := h.tight fun p hp => hall p (List.mem_append_left _ hp)
    have hextent : s.align.toNat ∣ input.extent s := hall (index, input) (by simp)
    refine ⟨hsize ▸ Nat.dvd_add haligned hextent, ?_⟩
    intro o ho
    by_cases hold : o < layout.image.size
    · obtain ⟨p, hp, hrange⟩ := hcover o hold
      refine ⟨p, List.mem_append_left _ hp, ?_⟩
      rwa [hother p hp]
    · -- the image ends on the alignment, so the section follows it at once
      have hadjacent : offset = layout.image.size := by
        have hgap := Nat.dvd_sub haligned hwhole
        rcases Nat.eq_zero_or_pos (offset - layout.image.size) with hzero | hpos
        · omega
        · have hle := Nat.le_of_dvd hpos hgap
          omega
      refine ⟨(index, input), by simp, ?_⟩
      rw [hself]
      simp only
      omega

end Tiling

/-- An image only grows while sections are laid out. -/
theorem layOut_grows {s : Segment} {addr : UInt64} {rest : List (Nat × Input)} {layout after : Layout}
    {log log' : List Event} (h : layOut s addr rest layout log = .ok (after, log')) :
    layout.image.size ≤ after.image.size := by
  induction rest generalizing layout log with
  | nil =>
      cases h
      exact le_refl _
  | cons p rest ih =>
      obtain ⟨-, -, hlater⟩ := layOut_cons_eq_ok_iff.1 h
      have hrest := ih hlater
      simp only [append, ByteArray.size_append] at hrest
      omega

/-- An image that is laid out is never longer than the greatest one. -/
theorem layOut_short {s : Segment} {addr : UInt64} {rest : List (Nat × Input)} {layout after : Layout}
    {log log' : List Event} (hsize : ∀ p ∈ rest, (p.2.bytes s).size < 2 ^ 64)
    (hshort : layout.image.size ≤ Bytes.lengthMax)
    (h : layOut s addr rest layout log = .ok (after, log')) : after.image.size ≤ Bytes.lengthMax := by
  induction rest generalizing layout log with
  | nil =>
      cases h
      exact hshort
  | cons p rest ih =>
      obtain ⟨-, hend, hrest⟩ := layOut_cons_eq_ok_iff.1 h
      obtain ⟨k, hk⟩ := s.align_pow
      have halign : s.align.toNat ≤ 32 := by cases s <;> decide
      have hroom : layout.image.size + s.align.toNat ≤ 2 ^ 64 := by
        simp only [Bytes.lengthMax] at hshort
        omega
      obtain ⟨-, hbehind, -⟩ := Bytes.roundUp_bounds hk hroom
      have hnext := size_append hbehind (Input.size_bytes_le (hsize p List.mem_cons_self))
      exact ih (fun q hq => hsize q (List.mem_cons_of_mem _ hq)) (hnext.trans_le hend) hrest

/-- The sections of a segment tile the image that they are laid out to. -/
theorem layOut_tiling {s : Segment} {addr : UInt64} {done rest : List (Nat × Input)}
    {layout after : Layout} {log log' : List Event} (hdone : Tiling s addr done layout)
    (hnodup : ((done ++ rest).map Prod.fst).Nodup) (hfits : after.image.size + s.align.toNat ≤ 2 ^ 64)
    (h : layOut s addr rest layout log = .ok (after, log')) : Tiling s addr (done ++ rest) after := by
  induction rest generalizing done layout log with
  | nil =>
      cases h
      rwa [List.append_nil]
  | cons p rest ih =>
      obtain ⟨index, input⟩ := p
      obtain ⟨-, -, hrest⟩ := layOut_cons_eq_ok_iff.1 h
      have hgrown := layOut_grows hrest
      obtain ⟨k, hk⟩ := s.align_pow
      set offset := (Bytes.roundUp (Bytes.size64 layout.image) s.align).toNat with hoffset
      have hlength : layout.image.size ≤ after.image.size ∧ (input.bytes s).size ≤ after.image.size := by
        simp only [append, ByteArray.size_append, Input.bytes] at hgrown ⊢
        omega
      have hpos : 0 < s.align.toNat := hk ▸ Nat.two_pow_pos k
      obtain ⟨haligned, hbehind, hnext⟩ :=
        Bytes.roundUp_bounds hk (by omega : layout.image.size + s.align.toNat ≤ 2 ^ 64)
      have hnew : index ∉ done.map Prod.fst := by
        rw [List.map_append, List.map_cons] at hnodup
        exact fun hmem => (List.nodup_append.1 hnodup).2.2 index hmem index List.mem_cons_self rfl
      have hbase : Bytes.roundUp (Bytes.size64 layout.image) s.align = UInt64.ofNat offset := by
        rw [hoffset, UInt64.ofNat_toNat]
      rw [hbase] at hrest
      have hbytes : (input.bytes s).size ≤ input.extent s := Input.size_bytes_le (by omega)
      have hsnoc := hdone.snoc hnew hbytes (UInt64.toNat_lt _) haligned hbehind hnext
      have hall := ih hsnoc (by simpa using hnodup) hrest
      simpa using hall

/-! ### The order of the sections -/

/-- The input at one place comes before the one at another in a segment: the one that starts the kernel's
    code comes first there, and the others in the order of their places. -/
def Precedes (s : Segment) (i : Nat) (a : Input) (j : Nat) (b : Input) : Prop :=
  (s = .ktext ∧ a.file.kernelStart = true ∧ i ≠ j) ∨
    (¬(s = .ktext ∧ b.file.kernelStart = true) ∧ i < j)

/-- Of two inputs one precedes the other. -/
theorem precedes_or (s : Segment) (a b : Input) {i j : Nat} (h : i ≠ j) :
    Precedes s i a j b ∨ Precedes s j b i a := by
  by_cases ha : s = .ktext ∧ a.file.kernelStart = true
  · exact .inl (.inl ⟨ha.1, ha.2, h⟩)
  · by_cases hb : s = .ktext ∧ b.file.kernelStart = true
    · exact .inr (.inl ⟨hb.1, hb.2, h.symm⟩)
    · rcases Nat.lt_or_gt_of_ne h with hlt | hgt
      · exact .inl (.inr ⟨hb, hlt⟩)
      · exact .inr (.inr ⟨ha, hgt⟩)

/-- At most one of the inputs of a link starts the kernel's code. -/
theorem entryFrom_kernelStart {index entry : Nat} {kernel : Bool} {found : Option Nat}
    {inputs : List Input} (h : entryFrom index kernel found inputs = .ok entry) :
    (kernel = true → ∀ input ∈ inputs, input.file.kernelStart = false) ∧
      inputs.Pairwise fun a b => a.file.kernelStart = true → b.file.kernelStart = false := by
  induction inputs generalizing index kernel found with
  | nil => exact ⟨by simp, .nil⟩
  | cons input rest ih =>
      simp only [entryFrom] at h
      split at h
      · cases h
      · rename_i honce
        have hrest : ∃ next seen, entryFrom next (kernel || input.file.kernelStart) seen rest =
            .ok entry := by
          split at h
          · exact ⟨_, _, h⟩
          · split at h
            · cases h
            · exact ⟨_, _, h⟩
        obtain ⟨next, seen, hrest⟩ := hrest
        obtain ⟨hlater, hpairs⟩ := ih hrest
        refine ⟨?_, List.pairwise_cons.2 ⟨?_, hpairs⟩⟩
        · rintro rfl other hother
          rcases List.mem_cons.1 hother with rfl | hother
          · simpa using honce
          · exact hlater rfl other hother
        · intro other hother hstart
          exact hlater (by simp [hstart]) other hother

/-- What holds of any two elements of a list in the order they stand in holds of elements whose keys
    ascend, if the keys of the list do. -/
theorem pairwise_of_lt {α : Type} {R : Nat × α → Nat × α → Prop} {l : List (Nat × α)}
    (hkeys : l.Pairwise fun p q => p.1 < q.1) (h : l.Pairwise R) {p q : Nat × α} (hp : p ∈ l) (hq : q ∈ l)
    (hlt : p.1 < q.1) : R p q := by
  induction l with
  | nil => cases hp
  | cons a rest ih =>
      obtain ⟨hfirst, hrest⟩ := List.pairwise_cons.1 hkeys
      obtain ⟨hR, hpairs⟩ := List.pairwise_cons.1 h
      rcases List.mem_cons.1 hp with rfl | hlater
      · rcases List.mem_cons.1 hq with rfl | hafter
        · exact absurd hlt (Nat.lt_irrefl _)
        · exact hR q hafter
      · rcases List.mem_cons.1 hq with rfl | hafter
        · exact absurd hlt (Nat.lt_asymm (hfirst p hlater))
        · exact ih hrest hpairs hlater hafter

/-- The inputs with their places, in the order of the places. -/
theorem ascending_numbered (inputs : List Input) :
    ((List.range inputs.length).zip inputs).Pairwise fun p q => p.1 < q.1 := by
  rw [← List.pairwise_map (f := Prod.fst) (R := (· < ·)), List.map_fst_zip (by simp)]
  exact List.pairwise_lt_range

/-- What holds of the inputs of a segment in their order holds of those that precede each other. -/
theorem order_precedes {inputs : List Input} {s : Segment} {R : Nat × Input → Nat × Input → Prop}
    (h : (order inputs s).Pairwise R)
    (hstart : inputs.Pairwise fun a b => a.file.kernelStart = true → b.file.kernelStart = false)
    {i j : Nat} {a b : Input} (ha : inputs[i]? = some a) (hb : inputs[j]? = some b)
    (hprecedes : Precedes s i a j b) : R (i, a) (j, b) := by
  have hnumbered : ∀ {n : Nat} {input : Input}, inputs[n]? = some input →
      (n, input) ∈ (List.range inputs.length).zip inputs :=
    fun hn => (order_perm inputs s).mem_iff.1 (mem_order.2 hn)
  obtain ⟨-, hothers, hacross⟩ := List.pairwise_append.1 h
  by_cases hfirst : s = .ktext ∧ a.file.kernelStart = true
  · -- the input that starts the kernel's code stands before all others
    have hsecond : ¬(s = .ktext ∧ b.file.kernelStart = true) := by
      rintro ⟨-, hb'⟩
      rcases hprecedes with ⟨-, -, hne⟩ | ⟨hother, -⟩
      · obtain ⟨hi, rfl⟩ := List.getElem?_eq_some_iff.1 ha
        obtain ⟨hj, rfl⟩ := List.getElem?_eq_some_iff.1 hb
        rcases Nat.lt_or_gt_of_ne hne with hlt | hgt
        · simp [List.pairwise_iff_getElem.1 hstart i j hi hj hlt hfirst.2] at hb'
        · simp [List.pairwise_iff_getElem.1 hstart j i hj hi hgt hb'] at hfirst
      · exact hother ⟨hfirst.1, hb'⟩
    exact hacross _ (List.mem_filter.2 ⟨hnumbered ha, by simpa using hfirst⟩)
      _ (List.mem_filter.2 ⟨hnumbered hb, by simpa [imp_iff_not_or] using hsecond⟩)
  · rcases hprecedes with ⟨hktext, hstarts, -⟩ | ⟨hother, hlt⟩
    · exact absurd ⟨hktext, hstarts⟩ hfirst
    · exact pairwise_of_lt ((ascending_numbered inputs).filter _) hothers
        (List.mem_filter.2 ⟨hnumbered ha, by simpa [imp_iff_not_or] using hfirst⟩)
        (List.mem_filter.2 ⟨hnumbered hb, by simpa [imp_iff_not_or] using hother⟩) hlt

end Linker

end VectorRisc
