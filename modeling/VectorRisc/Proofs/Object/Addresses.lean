/-
Module: VectorRisc.Proofs.Object.Addresses
Layer: Proofs
Purpose: Where the items of sources come to stand in the executable that they are linked into. The data of
  an object starts at a multiple of the linker's alignment, so an alignment that a source asks for is kept
  up to that; a larger one is kept in the objects that happen to start on it, and always in the first.
Imports: Mathlib.Tactic, VectorRisc.Command.Host, VectorRisc.Proofs.Assembler.Items,
  VectorRisc.Proofs.Emulator.Decoding, VectorRisc.Proofs.Object.Linkable
Trusted boundary: none
Main exports: Assembler.Source.items, Linker.baseOf_aligned, Linker.baseOf_first,
  Linker.address_aligned, Linker.linked_aligned
Open obligations: none
-/
import Mathlib.Tactic
import VectorRisc.Command.Host
import VectorRisc.Proofs.Assembler.Items
import VectorRisc.Proofs.Emulator.Decoding
import VectorRisc.Proofs.Object.Linkable

namespace VectorRisc

/-! ### Items of a source -/

namespace Assembler

namespace Source

/-- The state before the first line of a source. -/
def initial (source : Source) : State :=
  let a : Assembler := { host := source.host, predefined := source.predefined }
  { a.start with labels := labelsOf source.text.lines }

/-- The items that the assembly of a source writes. -/
def items (source : Source) : List Item :=
  (linesDeeds source.text.lines source.initial).flatMap Deed.items

/-- The data of an object is made of the items of its source. -/
theorem lays {source : Source} {file : ObjectFile} (h : source.assembled.2 = .ok file) {seg : Segment}
    (hdata : seg.isCode = false) :
    Lays ByteArray.empty (source.items.filter fun item => item.segment = seg)
      (file.sections.get seg).data := by
  obtain ⟨s, hlines, -, hfinish, -⟩ := assemble_eq_ok h
  have hcourse := assembleLines_course source.text.lines source.initial
  rw [initial, hlines] at hcourse
  have hlaid := hcourse.lays seg hdata
  rw [start, PerSegment.get_ofFn] at hlaid
  rw [(finish_eq_ok hfinish).2 seg]
  exact hlaid

theorem aligned (source : Source) :
    ∀ item ∈ source.items, item.segment.isCode = false ∧ item.Aligned :=
  (assembleLines_course source.text.lines source.initial).aligned (by simp [Asked, initial, start])

end Source

end Assembler

/-! ### Addresses -/

/-- A sum wraps around at a multiple of every alignment. -/
theorem dvd_toNat_add {k : Nat} (hk : k ≤ 64) {a b : UInt64} (hb : 2 ^ k ∣ b.toNat) :
    2 ^ k ∣ (a + b).toNat ↔ 2 ^ k ∣ a.toNat := by
  rw [UInt64.toNat_add, Nat.dvd_mod_iff (Nat.pow_dvd_pow 2 hk)]
  exact (Nat.dvd_add_iff_left hb).symm

theorem dvd_toNat_ofNat {k n : Nat} (hk : k ≤ 64) (h : 2 ^ k ∣ n) : 2 ^ k ∣ (UInt64.ofNat n).toNat := by
  rw [UInt64.toNat_ofNat', Nat.dvd_mod_iff (Nat.pow_dvd_pow 2 hk)]
  exact h

namespace Linker

theorem aligned_basesFrom {s : Segment} {addr : UInt64} {length : Nat} {inputs : List (Nat × Input)}
    {p : Nat × UInt64} (h : p ∈ basesFrom s addr length inputs) :
    ∃ offset : UInt64, p.2 = addr + offset ∧ s.align.toNat ∣ offset.toNat := by
  induction inputs generalizing length with
  | nil => cases h
  | cons q rest ih =>
      obtain ⟨index, input⟩ := q
      obtain ⟨k, hk⟩ := Segment.align_pow s
      rw [basesFrom] at h
      rcases List.mem_cons.1 h with rfl | hrest
      · exact ⟨_, rfl, Bytes.dvd_roundUp _ hk⟩
      · exact ih hrest

variable {inputs : List Input} {layouts : PerSegment Layout} {log : List Event}

/-- The section of an input starts at an aligned distance from the address of its segment. -/
theorem baseOf_aligned (hsize : ∀ input ∈ inputs, ∀ s, (input.bytes s).size < 2 ^ 64)
    (hlaid : layOutAll inputs = .ok (layouts, log)) (s : Segment) {index : Nat} {input : Input}
    (h : inputs[index]? = some input) :
    ∃ offset : UInt64, (layouts.get s).baseOf index = segmentAddr inputs s + offset ∧
      s.align.toNat ∣ offset.toNat := by
  rw [baseOf_eq hsize hlaid s h]
  exact aligned_basesFrom (mem_basesFrom h s)

/-- The data of the first input starts at the address of its segment. -/
theorem baseOf_first (hsize : ∀ input ∈ inputs, ∀ s, (input.bytes s).size < 2 ^ 64)
    (hlaid : layOutAll inputs = .ok (layouts, log)) {s : Segment} (hdata : s.isCode = false) {input : Input}
    (h : inputs[0]? = some input) : (layouts.get s).baseOf 0 = segmentAddr inputs s := by
  rw [baseOf_eq hsize hlaid s h]
  obtain ⟨rest, rfl⟩ : ∃ rest, inputs = input :: rest := by
    cases inputs with
    | nil => cases h
    | cons first rest => exact ⟨rest, by rw [Option.some.inj h]⟩
  refine baseIn_of_mem ?_
  have horder : ∃ later, order (input :: rest) s = (0, input) :: later := by
    have hother : s ≠ .ktext := by
      rintro rfl
      cases hdata
    simp [order, hother, List.range_succ_eq_map]
  obtain ⟨later, hlater⟩ := horder
  have hzero : Bytes.roundUp (UInt64.ofNat 0) s.align = 0 := by cases s <;> rfl
  rw [hlater, basesFrom, hzero, UInt64.add_zero]
  exact List.mem_cons_self

/-- The item stands at an address of a section. -/
def StandsAt (item : Assembler.Item) (out : Section) (address : UInt64) : Prop :=
  (address - out.addr).toNat + item.bytes.length ≤ out.data.size ∧
    Bytes.window out.data (address - out.addr).toNat item.bytes.length = item.bytes

/-- What stands in the section of an input stands in the executable, behind the start of the section. -/
theorem Composed.standsAt {s : Segment} {layout : Layout} {out : Section}
    (h : Composed inputs s layout out) (hout : out.data.size < 2 ^ 64) {i : Nat} {input : Input}
    (hinput : inputs[i]? = some input) (hsize : (input.bytes s).size < 2 ^ 64)
    (hfree : ∀ r ∈ input.file.relocations, r.kind.segment ≠ s) {item : Assembler.Item}
    (hitem : item.Stands (input.bytes s)) :
    StandsAt item out (layout.baseOf i + UInt64.ofNat item.offset) := by
  obtain ⟨before, after, himage, hoffset⟩ := hitem
  have hextent := Input.size_bytes_le hsize
  have hinside := h.inside i input hinput
  have hfits : item.offset + item.bytes.length ≤ (input.bytes s).size := by
    rw [himage, ByteArray.size_append, ByteArray.size_append, Bytes.size_ofList]
    omega
  have hplace : (layout.baseOf i + UInt64.ofNat item.offset - out.addr).toNat =
      layout.offsetOf out.addr i + item.offset := by
    have hsum : layout.baseOf i + UInt64.ofNat item.offset - out.addr =
        layout.baseOf i - out.addr + UInt64.ofNat item.offset := by
      rw [UInt64.sub_eq_add_neg, UInt64.sub_eq_add_neg]
      ac_rfl
    rw [hsum, UInt64.toNat_add, UInt64.toNat_ofNat']
    rw [Layout.offsetOf] at hinside ⊢
    omega
  refine ⟨by omega, ?_⟩
  have hitem : Bytes.window (input.bytes s) item.offset item.bytes.length = item.bytes := by
    have hmiddle := Bytes.window_middle (Bytes.toList before) item.bytes (Bytes.toList after)
    rw [Bytes.ofList_append, Bytes.ofList_append, Bytes.ofList_toList, Bytes.ofList_toList,
      Bytes.length_toList, hoffset, ← ByteArray.append_assoc, ← himage] at hmiddle
    exact hmiddle
  rw [hplace]
  refine Eq.trans ?_ hitem
  refine List.map_congr_left fun k hk => ?_
  rw [List.mem_range] at hk
  rw [Nat.add_assoc]
  refine h.bytes i input hinput _ (by omega) fun r hr hsegment => ?_
  exact absurd hsegment (hfree r hr)

/-- The fixed address of a data segment is a multiple of every alignment. -/
theorem dvd_base {s : Segment} (hdata : s.isCode = false) {k : Nat} (hk : k ≤ 8) :
    2 ^ k ∣ s.base.toNat := by
  refine (Nat.pow_dvd_pow 2 hk).trans ?_
  cases s with
  | text | ktext => cases hdata
  | data | kdata => decide

/-- Data at an aligned offset of an input has an address with that alignment, up to that of the linker,
    and keeps it wholly if the data of the input starts with it. -/
theorem address_aligned (hsize : ∀ input ∈ inputs, ∀ s, (input.bytes s).size < 2 ^ 64)
    (hlaid : layOutAll inputs = .ok (layouts, log)) {s : Segment} (hbase : segmentAddr inputs s = s.base)
    (hdata : s.isCode = false) {i : Nat} {input : Input} (hinput : inputs[i]? = some input) {k offset : Nat}
    (hk : k ≤ 8) (hoffset : 2 ^ k ∣ offset) :
    let first := (layouts.get s).baseOf i
    let address := first + UInt64.ofNat offset
    min (2 ^ k) 32 ∣ address.toNat ∧ (2 ^ k ∣ address.toNat ↔ 2 ^ k ∣ first.toNat) ∧
      (i = 0 → 2 ^ k ∣ address.toNat) := by
  intro first address
  have hmoved : ∀ j ≤ k, 2 ^ j ∣ address.toNat ↔ 2 ^ j ∣ first.toNat := fun j hj =>
    dvd_toNat_add (by omega) (dvd_toNat_ofNat (by omega) ((Nat.pow_dvd_pow 2 hj).trans hoffset))
  refine ⟨?_, hmoved k le_rfl, ?_⟩
  · have halign : s.align.toNat = 2 ^ 5 := by
      rw [Segment.align, hdata]
      rfl
    have hmin : min (2 ^ k) (2 ^ 5) = 2 ^ min k 5 := (pow_right_mono₀ (by norm_num)).map_min.symm
    obtain ⟨start, hfirst, hdvd⟩ := baseOf_aligned hsize hlaid s hinput
    rw [halign] at hdvd
    have hstep : 2 ^ min k 5 ∣ start.toNat := (Nat.pow_dvd_pow 2 (min_le_right k 5)).trans hdvd
    refine hmin ▸ (hmoved _ (min_le_left k 5)).2 ?_
    simp only [first]
    rw [hfirst, hbase, dvd_toNat_add (by omega) hstep]
    exact dvd_base hdata (by omega)
  · rintro rfl
    rw [hmoved k le_rfl]
    simp only [first]
    rw [baseOf_first hsize hlaid hdata hinput, hbase]
    exact dvd_base hdata hk

/-- Alignments are kept up to that of the linker. Let sources be assembled and linked. An item that is
    written while an alignment is asked for, a power of two up to 256, has its bytes at an address of the
    executable that is a multiple of the alignment as far as it goes up to 32. The address is a multiple of
    the alignment itself exactly if the data of the object starts at one, as that of the first object does.
    Every byte of data that is not zero belongs to an item. -/
theorem linked_aligned (sources : List Assembler.Source) (inputs : List Input)
    (hassembled : List.Forall₂ (fun source input => source.assembled.2 = .ok input.file) sources inputs)
    (exe : ObjectFile) (hlink : (link ⟨inputs⟩).1 = .ok exe) :
    ∃ layouts placed, layOutAll inputs = .ok (layouts, placed) ∧
      ∀ i source input, sources[i]? = some source → inputs[i]? = some input →
        (∀ seg : Segment, seg.isCode = false → ∀ k, Bytes.byteAt (input.bytes seg) k ≠ 0 →
          ∃ item ∈ source.items, item.segment = seg ∧ item.Covers k) ∧
        ∀ item ∈ source.items,
          let out := exe.sections.get item.segment
          let first := (layouts.get item.segment).baseOf i
          let address := first + UInt64.ofNat item.offset
          item.segment.isCode = false ∧ (out.data.size + 32 ≤ 2 ^ 64 → StandsAt item out address) ∧
          ∀ n, item.asked = some n → Assembler.IsAlignment n ∧ min n 32 ∣ address.toNat ∧
            (n ∣ address.toNat ↔ n ∣ first.toNat) ∧ (i = 0 → n ∣ address.toNat) := by
  obtain ⟨log, hcombine⟩ := combine_of_link hlink
  have hwell := wellFormed_of_assembled hassembled
  have hsize : ∀ input ∈ inputs, ∀ s, (input.bytes s).size < 2 ^ 64 :=
    fun input hinput s => lt_of_le_of_lt ((hwell input hinput).size s) (by decide)
  obtain ⟨layouts, placed, hlaid, hcomposed⟩ := combine_composed hcombine
    fun input hinput _ hr => position_le (hwell input hinput) hr
  refine ⟨layouts, placed, hlaid, ?_⟩
  intro i source input hsource hinput
  have hmem := List.mem_of_getElem? hinput
  obtain ⟨_, hsame, hobject⟩ := exists_source hassembled hinput
  obtain rfl := Option.some.inj (hsource.symm.trans hsame)
  refine ⟨?_, ?_⟩
  · intro seg hdata k hk
    rcases (source.lays hobject hdata).covers k hk with hnone | ⟨item, hitem, hcovers⟩
    · cases hnone
    · rw [List.mem_filter, decide_eq_true_eq] at hitem
      exact ⟨item, hitem.1, hitem.2, hcovers⟩
  · intro item hitem out first address
    obtain ⟨hdata, haligned⟩ := source.aligned item hitem
    have hstands : item.Stands (input.bytes item.segment) :=
      (source.lays hobject hdata).stands item (by simp [hitem])
    have hfree : ∀ r ∈ input.file.relocations, r.kind.segment ≠ item.segment := by
      intro r hr hsegment
      obtain ⟨seg, patch, hplaced⟩ := (hwell input hmem).placed r hr
      rw [hplaced.segment_eq] at hsegment
      rw [← hsegment, hplaced.code] at hdata
      cases hdata
    refine ⟨hdata, fun hroom => ?_, fun n hn => ?_⟩
    · have halign : item.segment.align.toNat = 32 := by
        rw [Segment.align, hdata]
        rfl
      have hout : out.data.size < 2 ^ 64 := by omega
      exact (hcomposed item.segment (by rwa [halign])).standsAt hout hinput (hsize input hmem _) hfree hstands
    · obtain ⟨⟨k, hk, rfl⟩, hoffset⟩ := haligned n hn
      exact ⟨⟨k, hk, rfl⟩,
        address_aligned hsize hlaid (segmentAddr_eq hwell item.segment) hdata hinput hk hoffset⟩

/-- A source with code and one byte of data. -/
def oneByte : Assembler.Source where
  host := Command.host
  text := Text.ofString ".text\n.entry main\nmain: syscall\n.data\n.byte 1\n"

/-- Items of every kind on multiples of 16. -/
def spacedItems : Assembler.Source where
  host := Command.host
  text := Text.ofString ".data\n.byte 1\n.align 16\n.half 2, 3\n.repeat 2\n.asciiz \"ab\"\n.space 3\n"

/-- A byte on a multiple of 64. -/
def farItem : Assembler.Source where
  host := Command.host
  text := Text.ofString ".data\n.align 64\n.byte 2\n"

/-- The start of the data of the second of two sources in the executable that they are linked into. -/
def secondBase? (first second : Assembler.Source) : Option UInt64 :=
  match first.assembled.2, second.assembled.2 with
  | .ok a, .ok b =>
    match (link ⟨[⟨[], a⟩, ⟨[], b⟩]⟩).1, layOutAll [⟨[], a⟩, ⟨[], b⟩] with
    | .ok _, .ok (layouts, _) => some ((layouts.get .data).baseOf 1)
    | _, _ => none
  | _, _ => none

/-- Two sources that are linked, with what is known of the executable. -/
theorem secondBase?_eq_some {first second : Assembler.Source} {base : UInt64}
    (h : secondBase? first second = some base) :
    ∃ a b exe layouts placed, first.assembled.2 = .ok a ∧ second.assembled.2 = .ok b ∧
      (link ⟨[⟨[], a⟩, ⟨[], b⟩]⟩).1 = .ok exe ∧
      layOutAll [⟨[], a⟩, ⟨[], b⟩] = .ok (layouts, placed) ∧ (layouts.get .data).baseOf 1 = base := by
  rw [secondBase?] at h
  split at h
  · rename_i a b ha hb
    split at h
    · rename_i exe layouts placed hlink hlaid
      exact ⟨a, b, exe, layouts, placed, ha, hb, hlink, hlaid, Option.some.inj h⟩
    · cases h
  · cases h

theorem linked_aligned_spacedItems :
    spacedItems.items.map (fun item => (item.offset, item.asked, item.bytes)) =
      [(0, none, [1]), (16, some 16, [2, 0]), (32, some 16, [3, 0]), (48, some 16, [3, 0]),
        (64, some 16, [3, 0]), (80, some 16, [97, 98, 0]), (96, some 16, [0, 0, 0])] ∧
    ∃ a b exe layouts placed, oneByte.assembled.2 = .ok a ∧ spacedItems.assembled.2 = .ok b ∧
      (link ⟨[⟨[], a⟩, ⟨[], b⟩]⟩).1 = .ok exe ∧
      layOutAll [⟨[], a⟩, ⟨[], b⟩] = .ok (layouts, placed) ∧
      ∀ item ∈ spacedItems.items, item.asked = some 16 →
        16 ∣ ((layouts.get item.segment).baseOf 1 + UInt64.ofNat item.offset).toNat := by
  refine ⟨by decide +kernel, ?_⟩
  have hbase : secondBase? oneByte spacedItems = some 0x10000020 := by decide +kernel
  obtain ⟨a, b, exe, layouts, placed, ha, hb, hlink, hlaid, -⟩ := secondBase?_eq_some hbase
  refine ⟨a, b, exe, layouts, placed, ha, hb, hlink, hlaid, ?_⟩
  obtain ⟨_, _, hsame, haligned⟩ := linked_aligned [oneByte, spacedItems] [⟨[], a⟩, ⟨[], b⟩]
    (.cons ha (.cons hb .nil)) exe hlink
  obtain ⟨rfl, rfl⟩ := Prod.mk.inj (Except.ok.inj (hlaid.symm.trans hsame))
  intro item hitem hasked
  obtain ⟨-, -, hkept⟩ := (haligned 1 spacedItems ⟨[], b⟩ rfl rfl).2 item hitem
  exact (hkept 16 hasked).2.1

/-- An alignment above that of the linker is not always kept. -/
theorem linked_not_always_aligned :
    ¬∀ (sources : List Assembler.Source) (inputs : List Input),
      List.Forall₂ (fun source input => source.assembled.2 = .ok input.file) sources inputs →
      ∀ exe, (link ⟨inputs⟩).1 = .ok exe → ∀ layouts placed, layOutAll inputs = .ok (layouts, placed) →
        ∀ i source, sources[i]? = some source → ∀ item ∈ source.items, ∀ n, item.asked = some n →
          n ∣ ((layouts.get item.segment).baseOf i + UInt64.ofNat item.offset).toNat := by
  intro h
  have hitems : farItem.items = [⟨.data, 0, some 64, [2]⟩] := by decide +kernel
  have hbase : secondBase? oneByte farItem = some 0x10000020 := by decide +kernel
  obtain ⟨a, b, exe, layouts, placed, ha, hb, hlink, hlaid, hfirst⟩ := secondBase?_eq_some hbase
  have hkept := h [oneByte, farItem] [⟨[], a⟩, ⟨[], b⟩] (.cons ha (.cons hb .nil)) exe hlink layouts placed
    hlaid 1 farItem rfl ⟨.data, 0, some 64, [2]⟩ (by rw [hitems]; exact List.mem_singleton_self _) 64 rfl
  rw [hfirst] at hkept
  exact absurd hkept (by decide)

end Linker

end VectorRisc
