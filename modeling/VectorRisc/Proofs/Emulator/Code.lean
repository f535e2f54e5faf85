/-
Module: VectorRisc.Proofs.Emulator.Code
Layer: Proofs
Purpose: Code is immutable. Whatever a loaded program does, the regions of its code keep the bytes they
  were loaded with, they alone can be executed, and so every instruction that is ever fetched is one of
  the program file.
Imports: Mathlib.Tactic, VectorRisc.Files.Disk, VectorRisc.Proofs.Bytes, VectorRisc.Proofs.Outcome,
  VectorRisc.Proofs.Emulator.Loading, VectorRisc.Proofs.Object.WellFormed
Trusted boundary: none
Main exports: Section.image, Region.contents, Emulator.ticks, Emulator.Holds.changes, Emulator.ticks_change,
  Emulator.Holds.fetch_eq_ok, Emulator.Holds.fetch_wordAt, Emulator.ticks_code
Open obligations: none
-/
import Mathlib.Tactic
import VectorRisc.Files.Disk
import VectorRisc.Proofs.Bytes
import VectorRisc.Proofs.Outcome
import VectorRisc.Proofs.Emulator.Loading
import VectorRisc.Proofs.Object.WellFormed

namespace VectorRisc

/-! ### Bytes of a section and of a region -/

/-- The bytes of a section in memory: its data, and zeros up to its size. A size is a 64-bit value, and
    data has no more bytes than its size as such a value says. -/
def Section.image (c : Section) : List UInt8 :=
  (Bytes.toList c.data).take (Bytes.size64 c.data).toNat ++
    List.replicate (c.size.toNat - (Bytes.size64 c.data).toNat) 0

/-- The bytes at all the addresses of a region. -/
def Region.contents (r : Region) : List UInt8 := r.get r.first r.size.toNat

namespace Section

/-- Data that fits the address space is in the image as it is. -/
theorem image_of_lt {c : Section} (h : c.data.size < 2 ^ 64) :
    c.image = Bytes.toList c.data ++ List.replicate (c.size.toNat - c.data.size) 0 := by
  rw [image, Bytes.toNat_size64 h, List.take_of_length_le (Bytes.length_toList c.data).le]

theorem size64_le (image : ByteArray) : (Bytes.size64 image).toNat ≤ image.size := by
  rw [Bytes.size64, UInt64.toNat_ofNat']
  exact Nat.mod_le _ _

@[simp] theorem length_image (c : Section) : c.image.length = c.size.toNat := by
  have hdata := size64_le c.data
  have hsize := c.size64_le_size
  simp only [image, List.length_append, List.length_take, Bytes.length_toList, List.length_replicate]
  omega

/-- The image of a section is what a buffer with its data reads as. -/
theorem image_eq_map (c : Section) (limit : UInt64) :
    c.image = (List.range c.size.toNat).map (Buffer.ofImage limit c.data).get := by
  have hdata := size64_le c.data
  apply List.ext_getElem
  · simp
  · intro i hi _
    rw [List.getElem_map, List.getElem_range, Buffer.get]
    by_cases hin : i < (Bytes.size64 c.data).toNat
    · have hbyte : i < c.data.size := by omega
      simp only [image, Buffer.ofImage, hin, if_true, Bytes.byteAt_of_lt hbyte]
      rw [List.getElem_append_left (by simpa [hin] using hbyte), List.getElem_take]
      rfl
    · simp only [image, Buffer.ofImage, hin, if_false]
      rw [List.getElem_append_right (by simp; omega), List.getElem_replicate]

end Section

/-- A stretch of the values of a function on numbers. -/
theorem take_drop_map_range {α : Type} (f : Nat → α) {n start k : Nat} (h : start + k ≤ n) :
    (((List.range n).map f).drop start).take k = (List.range k).map fun i => f (start + i) := by
  apply List.ext_getElem
  · simp
    omega
  · intro i _ _
    simp

namespace Emulator

/-! ### Code regions -/

/-- The region of a code section has the size of the section. -/
theorem sectionRegion_size {program : ObjectFile} {s : Segment} (hcode : s.isCode = true) :
    (sectionRegion program s).size = (program.sections.get s).size := by
  have hsize : regionSize s (program.sections.get s) = (program.sections.get s).size := by
    cases s <;> simp_all [regionSize, Segment.isCode]
  have hfits : ¬(program.sections.get s).size < Bytes.size64 (program.sections.get s).data :=
    Nat.not_lt.2 (Section.size64_le_size _)
  simp only [sectionRegion, Region.make, Region.size, hsize, hfits, if_false]
  rw [UInt64.sub_add_cancel, UInt64.add_comm, UInt64.add_sub_cancel]

/-- The region of a code section holds its image. -/
theorem sectionRegion_contents {program : ObjectFile} {s : Segment} (hcode : s.isCode = true) :
    (sectionRegion program s).contents = (program.sections.get s).image := by
  rw [Region.contents, sectionRegion_size hcode, Region.get, Buffer.read,
    Section.image_eq_map _ (sectionRegion program s).buffer.limit]
  simp only [UInt64.sub_self, UInt64.toNat_zero, Nat.zero_add]
  rfl

theorem access_of_execute {s : Segment} (h : s.access.execute = true) :
    s.isCode = true ∧ s.access.write = false := by
  cases s <;> first | exact ⟨rfl, rfl⟩ | cases h

theorem Holds.change {program : ObjectFile} {m after : Memory} (h : Holds program m)
    (hchange : m.Change after) : Holds program after := by
  obtain ⟨stack, hrw, hapart, hlaid⟩ := h
  exact ⟨stack, hrw, hapart, hlaid.change hchange⟩

/-- A memory that holds a program does so whatever instructions do. -/
theorem Holds.changes {σ : Type} {program : ObjectFile} {start m : Machine σ}
    (h : Holds program start.memory) (hrun : Relation.ReflTransGen Machine.Change start m) :
    Holds program m.memory := by
  induction hrun with
  | refl => exact h
  | tail _ hchange ih => exact ih.change hchange.memory

/-- A region of the layout that can be executed is that of a code section. -/
theorem code_of_execute {program : ObjectFile} {stack r : Region} (hstack : stack.access = Access.rw)
    (hr : r ∈ regions program ++ [stack]) (hexecute : r.access.execute = true) :
    ∃ s, s.isCode = true ∧ r = sectionRegion program s ∧ r.access.write = false := by
  rcases List.mem_append.1 hr with hsection | hother
  · obtain ⟨s, -, rfl⟩ := mem_regions.1 hsection
    obtain ⟨hcode, hwrite⟩ := access_of_execute hexecute
    exact ⟨s, hcode, rfl, hwrite⟩
  · rw [List.mem_singleton.1 hother, hstack] at hexecute
    cases hexecute

/-- A code section that is not empty has its region in memory. -/
theorem Holds.sectionRegion_mem {program : ObjectFile} {m : Memory} (h : Holds program m) {s : Segment}
    (hcode : s.isCode = true) (hsize : (program.sections.get s).size ≠ 0) :
    sectionRegion program s ∈ m.regions := by
  obtain ⟨stack, -, -, hlaid⟩ := h
  refine hlaid.mem_of_frozen (List.mem_append_left _ (mem_regions.2 ⟨s, ?_, rfl⟩)) ?_
  · cases s <;> simp_all [regionSize, Segment.isCode]
  · cases s <;> first | rfl | cases hcode

/-- An address of a code section is found in its region, whatever the heap has grown to. -/
theorem Holds.region?_section {program : ObjectFile} {m : Memory} (h : Holds program m) {s : Segment}
    (hcode : s.isCode = true) {addr : UInt64} (haddr : (sectionRegion program s).contains addr = true) :
    m.region? addr = some (sectionRegion program s) := by
  obtain ⟨stack, -, hapart, hlaid⟩ := h
  have hsize : regionSize s (program.sections.get s) ≠ 0 := by
    have hregion := (Region.contains_iff.1 haddr).1
    rw [sectionRegion_size hcode] at hregion
    cases s <;> simp_all [regionSize, Segment.isCode]
  have hmem : sectionRegion program s ∈ regions program ++ [stack] :=
    List.mem_append_left _ (mem_regions.2 ⟨s, hsize, rfl⟩)
  refine hlaid.region?_of_frozen (hapart.find?_eq_some hmem haddr) ?_
  cases s <;> first | rfl | cases hcode

/-- Only the regions of code sections can be executed. -/
theorem Holds.code_of_execute {program : ObjectFile} {m : Memory} (h : Holds program m) {r : Region}
    (hr : r ∈ m.regions) (hexecute : r.access.execute = true) :
    ∃ s, s.isCode = true ∧ r = sectionRegion program s := by
  obtain ⟨stack, hrw, -, hlaid⟩ := h
  obtain ⟨before, hbefore, hkept⟩ := hlaid.kept_of_execute hr hexecute
  rw [hkept.access] at hexecute
  obtain ⟨s, hcode, rfl, hwrite⟩ := Emulator.code_of_execute hrw hbefore hexecute
  exact ⟨s, hcode, hkept.frozen hwrite⟩

/-! ### Fetching -/

/-- The last address of a region within the address space. -/
theorem toNat_last {r : Region} (hfits : r.first.toNat + r.size.toNat < 2 ^ 64)
    (hsize : 0 < r.size.toNat) : r.last.toNat = r.first.toNat + r.size.toNat - 1 := by
  have hlast := r.last.toNat_lt
  have hfirst := r.first.toNat_lt
  simp only [Region.size, UInt64.toNat_sub, UInt64.toNat_add, UInt64.toNat_one] at hfits hsize ⊢
  omega

/-- An offset within a region is allowed what the region allows. -/
theorem fault?_offset {r : Region} {offset n : Nat} {wanted : Access}
    (hallows : r.access.allows wanted = true) (hfits : r.first.toNat + r.size.toNat < 2 ^ 64)
    (hn : 0 < n) (hin : offset + n ≤ r.size.toNat) :
    r.contains (r.first + UInt64.ofNat offset) = true ∧
      r.fault? (r.first + UInt64.ofNat offset) n wanted = none := by
  have hlast := toNat_last hfits (by omega)
  have hsize : r.size ≠ 0 := by
    intro hzero
    rw [hzero, UInt64.toNat_zero] at hin
    omega
  have hstart : (r.first + UInt64.ofNat offset).toNat = r.first.toNat + offset := by
    rw [UInt64.toNat_add, UInt64.toNat_ofNat']
    omega
  have hstop : (r.first + UInt64.ofNat offset + UInt64.ofNat n - 1).toNat =
      r.first.toNat + offset + n - 1 := by
    rw [UInt64.toNat_sub, UInt64.toNat_add, hstart, UInt64.toNat_ofNat', UInt64.toNat_one]
    omega
  constructor
  · rw [Region.contains_iff, UInt64.le_iff_toNat_le, UInt64.le_iff_toNat_le, hstart]
    exact ⟨hsize, by omega, by omega⟩
  · have hpos : n ≠ 0 := by omega
    simp only [Region.fault?, hallows, hpos, UInt64.lt_iff_toNat_lt, hstart, hstop, Bool.not_true,
      decide_false, Bool.false_or, Bool.or_eq_true, decide_eq_true_eq]
    rw [if_neg (by omega)]

/-- A word that is fetched is four bytes of the image of a code section. -/
theorem Holds.fetch_eq_ok {program : ObjectFile} {m : Memory} (h : Holds program m) {pc : UInt64}
    {word : UInt32} (hfetch : m.fetch pc = .ok word) :
    ∃ s offset, s.isCode = true ∧ m.region? pc = some (sectionRegion program s) ∧
      pc = (program.sections.get s).addr + UInt64.ofNat offset ∧
      offset + 4 ≤ (program.sections.get s).image.length ∧
      word = UInt32.ofNat (Bytes.toNat (((program.sections.get s).image.drop offset).take 4)) := by
  obtain ⟨bytes, hread, rfl⟩ := map_eq_ok.1 hfetch
  obtain ⟨stack, hrw, hapart, hlaid⟩ := h
  simp only [Memory.read, Memory.fault?] at hread
  cases hregion : m.region? pc with
  | none => simp [hregion] at hread
  | some after =>
      rw [hregion] at hread
      cases hfault : after.fault? pc 4 Access.forExecute with
      | some e => simp [hfault] at hread
      | none =>
          simp only [hfault, Memory.get, hregion, Except.ok.injEq] at hread
          obtain ⟨hallows, -, hwrap, hfirst, hlast⟩ := Region.fault?_eq_none_iff.1 hfault
          have hexecute : after.access.execute = true := by
            simpa [Access.allows, Access.forExecute] using hallows
          obtain ⟨r, hfound, hkept⟩ := hlaid.region?_of_execute hregion hexecute
          rw [hkept.access] at hexecute
          obtain ⟨s, hcode, rfl, hwrite⟩ :=
            Emulator.code_of_execute hrw (List.mem_of_find?_eq_some hfound) hexecute
          obtain rfl := hkept.frozen hwrite
          -- the word lies within the section, since its region ends where the section does
          have hin : (pc - (program.sections.get s).addr).toNat + 4 ≤
              (program.sections.get s).size.toNat := by
            have hwithin := Region.offset_add_le_size (by norm_num : 4 < 2 ^ 64)
              (Memory.contains_of_region? hregion) hfault
            rwa [sectionRegion_size hcode, sectionRegion_first] at hwithin
          refine ⟨s, (pc - (program.sections.get s).addr).toNat, hcode, rfl, ?_, ?_, ?_⟩
          · rw [UInt64.ofNat_toNat, UInt64.add_comm, UInt64.sub_add_cancel]
          · simpa using hin
          · rw [Section.image_eq_map _ (sectionRegion program s).buffer.limit,
              take_drop_map_range _ hin, ← hread]
            rfl

/-- The words of a code section are fetched at their addresses. -/
theorem Holds.fetch_wordAt {program : ObjectFile} {m : Memory} (h : Holds program m) {s : Segment}
    (hcode : s.isCode = true) {offset : Nat}
    (hfits : (program.sections.get s).addr.toNat + (program.sections.get s).size.toNat < 2 ^ 64)
    (hoffset : offset + 4 ≤ (Bytes.size64 (program.sections.get s).data).toNat) :
    m.fetch ((program.sections.get s).addr + UInt64.ofNat offset) =
      .ok (Bytes.wordAt (program.sections.get s).data offset) := by
  have hdata := Section.size64_le_size (program.sections.get s)
  have hallows : (sectionRegion program s).access.allows Access.forExecute = true := by
    cases s <;> first | rfl | cases hcode
  rw [← sectionRegion_size hcode] at hfits hdata
  obtain ⟨hcontains, hfault⟩ := fault?_offset hallows hfits (by omega : 0 < 4) (hoffset.trans hdata)
  rw [sectionRegion_first] at hcontains hfault
  have hplace : ((program.sections.get s).addr + UInt64.ofNat offset -
      (program.sections.get s).addr).toNat = offset := by
    rw [UInt64.add_comm, UInt64.add_sub_cancel, UInt64.toNat_ofNat']
    omega
  simp only [Memory.fetch, Memory.read, Memory.fault?, Memory.get, h.region?_section hcode hcontains,
    hfault, Except.map, Bytes.wordAt, Region.get, sectionRegion_first, Buffer.read, hplace, Bytes.window]
  congr 3
  refine List.map_congr_left ?_
  intro i hi
  have hin : offset + i < (Bytes.size64 (program.sections.get s).data).toNat := by
    have hlt := List.mem_range.1 hi
    omega
  exact if_pos hin

/-- A stretch of words of a code section that takes no more memory than its data. -/
theorem Holds.fetch_wordsAt {program : ObjectFile} {m : Memory} (h : Holds program m) {s : Segment}
    (hcode : s.isCode = true)
    (hfits : (program.sections.get s).addr.toNat + (program.sections.get s).data.size < 2 ^ 64)
    (hsize : (program.sections.get s).memSize = Bytes.size64 (program.sections.get s).data)
    {offset n : Nat} (hin : offset + 4 * n ≤ (program.sections.get s).data.size) {i : Nat} {w : UInt32}
    (hw : (Bytes.wordsAt (program.sections.get s).data offset n)[i]? = some w) :
    m.fetch ((program.sections.get s).addr + UInt64.ofNat offset + UInt64.ofNat (4 * i)) = .ok w := by
  obtain ⟨hi, rfl⟩ := Bytes.getElem?_wordsAt hw
  have hdata := Bytes.toNat_size64 (by omega : (program.sections.get s).data.size < 2 ^ 64)
  have hsection : (program.sections.get s).size = Bytes.size64 (program.sections.get s).data := by
    rw [Section.size, hsize, ite_self]
  rw [UInt64.add_assoc, ← UInt64.ofNat_add]
  refine h.fetch_wordAt hcode ?_ ?_
  · rw [hsection, hdata]
    exact hfits
  · rw [hdata]
    omega

/-! ### Runs -/

variable {σ : Type} [FileSystem σ]

/-- The emulator after a number of ticks, of which any may have failed. -/
def ticks : Nat → Emulator σ → Emulator σ
  | 0, e => e
  | n + 1, e => ticks n e.tick.emulator

/-- A tick changes the machine as an instruction does. -/
theorem tick_change (e : Emulator σ) : e.machine.Change e.tick.emulator.machine := by
  rw [tick]
  split
  · exact .refl _
  · split
    · exact .refl _
    · exact (Machine.clock_change { e.machine with
        tracing := { e.machine.tracing with steps := e.verbose } }).of_same rfl rfl rfl

/-- A run of ticks changes the machine step by step as instructions do. -/
theorem ticks_change (n : Nat) (e : Emulator σ) :
    Relation.ReflTransGen Machine.Change e.machine (e.ticks n).machine := by
  induction n generalizing e with
  | zero => exact .refl
  | succ n ih => exact .head e.tick_change (ih _)

/-- Code is immutable. However long a loaded program has run, each code section that is not empty is a
    region of memory with the image it was loaded with, which all its addresses lead to; no other region
    can be executed; and every word that is fetched is four bytes of one of these images. -/
theorem ticks_code (e : Emulator σ) (program : ObjectFile)
    (hload : (e.load (some program)).error = none) (n : Nat) :
    let memory := ((e.load (some program)).emulator.ticks n).machine.memory
    (∀ s : Segment, s.isCode = true → (program.sections.get s).size ≠ 0 →
      ∃ r ∈ memory.regions, r.name = s.name ∧ r.first = (program.sections.get s).addr ∧
        r.contents = (program.sections.get s).image ∧
        ∀ addr, r.contains addr = true → memory.region? addr = some r) ∧
    (∀ r ∈ memory.regions, r.access.execute = true →
      ∃ s : Segment, s.isCode = true ∧ r.name = s.name ∧ r.first = (program.sections.get s).addr ∧
        r.contents = (program.sections.get s).image) ∧
    ∀ pc word, memory.fetch pc = .ok word →
      ∃ (s : Segment) (r : Region) (offset : Nat), s.isCode = true ∧ memory.region? pc = some r ∧
        r.name = s.name ∧ pc = (program.sections.get s).addr + UInt64.ofNat offset ∧
        offset + 4 ≤ (program.sections.get s).image.length ∧
        word = UInt32.ofNat (Bytes.toNat (((program.sections.get s).image.drop offset).take 4)) := by
  intro memory
  obtain ⟨-, hloaded, -⟩ := load_eq_none hload
  have hholds : Holds program memory := hloaded.changes (ticks_change n _)
  refine ⟨?_, ?_, ?_⟩
  · intro s hcode hsize
    refine ⟨sectionRegion program s, hholds.sectionRegion_mem hcode hsize, rfl, rfl,
      sectionRegion_contents hcode, ?_⟩
    intro addr haddr
    exact hholds.region?_section hcode haddr
  · intro r hr hexecute
    obtain ⟨s, hcode, rfl⟩ := hholds.code_of_execute hr hexecute
    exact ⟨s, hcode, rfl, rfl, sectionRegion_contents hcode⟩
  · intro pc word hfetch
    obtain ⟨s, offset, hcode, hregion, haddr, hin, hword⟩ := hholds.fetch_eq_ok hfetch
    exact ⟨s, _, offset, hcode, hregion, rfl, haddr, hin, hword⟩

/-- A program of one instruction in two words of memory. -/
def shortProgram : ObjectFile where
  kind := .executable
  entry := Segment.textBase
  sections :=
    { (ObjectFile.empty .executable).sections with
      text := { addr := Segment.textBase, data := Bytes.ofList [0x20, 0x08, 0x01, 0], memSize := 8 } }

/-- An emulator with nothing on its disk and nothing to read. -/
def bareEmulator : Emulator Disk where
  machine := { files := Files.fresh {} {} }

theorem ticks_code_shortProgram : (bareEmulator.load (some shortProgram)).error = none ∧
    ∃ r ∈ ((bareEmulator.load (some shortProgram)).emulator.ticks 5).machine.memory.regions,
      r.name = Segment.text.name ∧ r.contents = [0x20, 0x08, 0x01, 0, 0, 0, 0, 0] := by
  have hload : (bareEmulator.load (some shortProgram)).error = none := by decide +kernel
  obtain ⟨hcode, -, -⟩ := ticks_code bareEmulator shortProgram hload 5
  obtain ⟨r, hr, hname, -, hcontents, -⟩ := hcode .text rfl (by decide)
  exact ⟨hload, r, hr, hname, hcontents.trans (by decide)⟩

end Emulator

end VectorRisc
