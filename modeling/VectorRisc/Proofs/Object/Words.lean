/-
Module: VectorRisc.Proofs.Object.Words
Layer: Proofs
Purpose: Linking keeps the instructions. A relocation changes the immediate of the word it stands on and no
  bit below, so every word of linked code decodes as the word of the object that it comes from, to the
  same mnemonic with the same registers.
Imports: Mathlib.Tactic, VectorRisc.Proofs.Object.Image
Trusted boundary: none
Main exports: Instruction.Alike, Format.fieldStart, Instruction.decode_of_low, Patch.Hosts.fieldStart_eq,
  Relocation.Placed.spares, Linker.Coded, Linker.combine_coded, Linker.combine_words
Open obligations: none
-/
import Mathlib.Tactic
import VectorRisc.Proofs.Object.Image

namespace VectorRisc

/-! ### Words that differ in the immediate -/

/-- The instructions have the same mnemonic and the same registers. -/
structure Instruction.Alike (x y : Instruction) : Prop where
  mnemonic : x.mnemonic = y.mnemonic
  rd : x.rd = y.rd
  rs : x.rs = y.rs
  rt : x.rt = y.rt

/-- The lowest bit of the immediate of a layout; all bits above belong to it too. -/
def Format.fieldStart : Format → Nat
  | .i => 17
  | .j => 7
  | .ei => 16
  | .r | .pseudo | .unknown _ => 32

theorem Format.fieldStart_le (format : Format) : format.fieldStart ≤ 32 := by
  cases format <;> simp [fieldStart]

namespace Word

variable {w v : Word} {low : Nat}

/-- Words with the same low bits have the same fields there. -/
theorem div_mod_of_low (hlow : v.toNat % 2 ^ low = w.toNat % 2 ^ low) {k n : Nat} (h : k + n ≤ low) :
    v.toNat / 2 ^ k % 2 ^ n = w.toNat / 2 ^ k % 2 ^ n := by
  have hfield : ∀ a : Nat, a / 2 ^ k % 2 ^ n = a % 2 ^ low % 2 ^ (k + n) / 2 ^ k := by
    intro a
    rw [Nat.mod_mod_of_dvd _ (pow_dvd_pow 2 h), pow_add, Nat.mod_mul_right_div_self]
  rw [hfield, hfield, hlow]

theorem opcode_of_low (hlow : v.toNat % 2 ^ low = w.toNat % 2 ^ low) (h : 7 ≤ low) :
    v.opcode = w.opcode := by
  apply UInt8.toNat_inj.1
  have hfield := div_mod_of_low hlow (k := 0) (n := 7) (by omega)
  rwa [pow_zero, Nat.div_one, Nat.div_one, ← toNat_opcode, ← toNat_opcode] at hfield

theorem fieldD_of_low (hlow : v.toNat % 2 ^ low = w.toNat % 2 ^ low) (h : 12 ≤ low) :
    v.fieldD = w.fieldD := by
  apply UInt8.toNat_inj.1
  rw [toNat_fieldD, toNat_fieldD, div_mod_of_low hlow h]

theorem fieldS_of_low (hlow : v.toNat % 2 ^ low = w.toNat % 2 ^ low) (h : 17 ≤ low) :
    v.fieldS = w.fieldS := by
  apply UInt8.toNat_inj.1
  rw [toNat_fieldS, toNat_fieldS, div_mod_of_low hlow h]

theorem funcEI_of_low (hlow : v.toNat % 2 ^ low = w.toNat % 2 ^ low) (h : 16 ≤ low) :
    v.funcEI = w.funcEI := by
  apply UInt8.toNat_inj.1
  rw [toNat_funcEI, toNat_funcEI, div_mod_of_low hlow h]

/-- A word that agrees below the immediate with one that carries a mnemonic carries it too, with the same
    registers. -/
theorem Carries.of_low {m : Mnemonic} (hm : m ∈ Mnemonic.standard) (hreal : m.isPseudo = false)
    (h : w.Carries m)
    (hlow : v.toNat % 2 ^ m.format.fieldStart = w.toNat % 2 ^ m.format.fieldStart) :
    v.Carries m ∧ (v.unpack m).Alike (w.unpack m) := by
  rcases Mnemonic.standard_imm m hm hreal with ⟨hf, -⟩ | ⟨hf, -⟩ | ⟨hf, hbare, -⟩ | ⟨hf, htarget, -⟩ |
    ⟨hf, -⟩
  · -- there is no immediate, and so the words are equal
    rw [hf, Format.fieldStart, Nat.mod_eq_of_lt v.toNat_lt, Nat.mod_eq_of_lt w.toNat_lt] at hlow
    obtain rfl := UInt32.toNat_inj.1 hlow
    exact ⟨h, rfl, rfl, rfl, rfl⟩
  · rw [hf, Format.fieldStart] at hlow
    refine ⟨⟨(opcode_of_low hlow (by norm_num)).trans h.1, by simp [hf], by simp [hf]⟩, ?_⟩
    simp only [unpack, hf]
    exact ⟨rfl, rfl, fieldS_of_low hlow (by norm_num), fieldD_of_low hlow (by norm_num)⟩
  · rw [hf, Format.fieldStart] at hlow
    refine ⟨⟨(opcode_of_low hlow (by norm_num)).trans h.1, by simp [hf], by simp [hf]⟩, ?_⟩
    simp only [unpack, hf, hbare]
    exact ⟨rfl, rfl, rfl, rfl⟩
  · rw [hf, Format.fieldStart] at hlow
    refine ⟨⟨(opcode_of_low hlow (by norm_num)).trans h.1, by simp [hf], by simp [hf]⟩, ?_⟩
    simp only [unpack, hf, htarget]
    exact ⟨rfl, rfl, rfl, rfl⟩
  · rw [hf, Format.fieldStart] at hlow
    refine ⟨⟨(opcode_of_low hlow (by norm_num)).trans h.1, by simp [hf], fun _ => ?_⟩, ?_⟩
    · rw [funcEI_of_low hlow (by norm_num)]
      exact h.2.2 hf
    · simp only [unpack, hf]
      exact ⟨rfl, fieldD_of_low hlow (by norm_num), rfl, rfl⟩

end Word

namespace Instruction

/-- A word that agrees with an instruction below its immediate is an instruction with the same mnemonic
    and registers. -/
theorem decode_of_low {w v : Word} {x : Instruction} (h : decode Table.standard w = .ok x)
    (hlow : v.toNat % 2 ^ x.mnemonic.format.fieldStart = w.toNat % 2 ^ x.mnemonic.format.fieldStart) :
    ∃ y, decode Table.standard v = .ok y ∧ y.Alike x := by
  obtain ⟨m, hm, hreal, hcarries, rfl⟩ := decode_eq_ok_iff.1 h
  rw [Word.unpack_mnemonic] at hlow
  obtain ⟨hv, halike⟩ := hcarries.of_low hm hreal hlow
  exact ⟨_, decode_of_carries hm hreal hv, halike⟩

end Instruction

/-! ### Words that relocations stand on -/

/-- The words that a patch is meant for have their immediates in the field that it changes. -/
theorem Patch.Hosts.fieldStart_eq {patch : Patch} {words : List Word} (h : patch.Hosts words) {w : Word}
    (hw : w ∈ words) :
    ∃ x, Instruction.decode Table.standard w = .ok x ∧ x.mnemonic.format.fieldStart = patch.fieldStart := by
  have hone : ∀ {mnemonics : List Mnemonic} {format : Format} {x : Instruction},
      words.map (Instruction.decode Table.standard) = [.ok x] → x.mnemonic ∈ mnemonics →
      (∀ m ∈ mnemonics, m.format = format) →
      ∃ x, Instruction.decode Table.standard w = .ok x ∧ x.mnemonic.format = format := by
    intro mnemonics format x hwords hm hformat
    obtain ⟨v, rfl, hdecode⟩ := List.map_eq_singleton_iff.1 hwords
    rw [List.mem_singleton.1 hw]
    exact ⟨x, hdecode, hformat _ hm⟩
  cases patch with
  | branch =>
      obtain ⟨x, hwords, hm, -⟩ := h
      obtain ⟨y, hdecode, hformat⟩ := hone hwords hm fun m hm => (Mnemonic.branch_code m hm).1
      exact ⟨y, hdecode, by rw [hformat]; rfl⟩
  | jump =>
      obtain ⟨x, hwords, hm, -⟩ := h
      obtain ⟨y, hdecode, hformat⟩ := hone hwords hm fun m hm => (Mnemonic.addressJump_code m hm).1
      exact ⟨y, hdecode, by rw [hformat]; rfl⟩
  | slice =>
      obtain ⟨x, hwords, hm, -⟩ := h
      obtain ⟨y, hdecode, hformat⟩ := hone hwords hm fun m hm => (Mnemonic.immediateSlice_code m hm).1
      exact ⟨y, hdecode, by rw [hformat]; rfl⟩
  | address =>
      obtain ⟨rd, hwords⟩ := h
      have hdecoded := List.mem_map_of_mem (f := Instruction.decode Table.standard) hw
      rw [hwords] at hdecoded
      obtain ⟨m, hm, hdecode⟩ := List.mem_map.1 hdecoded
      refine ⟨_, hdecode.symm, ?_⟩
      simp only [(Mnemonic.immediateSlice_code m hm).1]
      rfl

/-- A relocation spares the bits of an instruction below its immediate. -/
theorem Relocation.Placed.spares {image : Segment → ByteArray} {r : Relocation} {s : Segment} {patch : Patch}
    (h : r.Placed image s patch) {k : Nat} (hk : 4 ∣ k) {x : Instruction}
    (hdecode : Instruction.decode Table.standard (Bytes.wordAt (image s) k) = .ok x) {b : Nat}
    (hb : b < x.mnemonic.format.fieldStart) : ¬r.Changes (8 * k + b) := by
  have hword := lt_of_lt_of_le hb x.mnemonic.format.fieldStart_le
  rintro ⟨what, hwhat, i, hi, hfirst, hlast⟩
  rw [h.patch?_eq, Option.some.injEq] at hwhat
  subst hwhat
  have haligned := h.aligned
  -- words are aligned, so the word is the one that the relocation changes
  obtain rfl : k = r.position.toNat + 4 * i := by omega
  have hlength := Assembler.length_of_hosts h.hosts
  obtain ⟨w, hw⟩ : ∃ w, (Bytes.wordsAt (image s) r.position.toNat patch.words)[i]? = some w :=
    ⟨_, List.getElem?_eq_getElem (by rwa [hlength])⟩
  obtain ⟨-, hplace⟩ := Bytes.getElem?_wordsAt hw
  obtain ⟨y, hy, hfield⟩ := h.hosts.fieldStart_eq (List.mem_of_getElem? hw)
  rw [hplace, hdecode] at hy
  obtain rfl := Except.ok.inj hy
  omega

namespace Linker

/-! ### Linked words -/

/-- A word of an executable decodes as the word of the input at its place. -/
theorem Composed.decodes {inputs : List Input} {s : Segment} {layout : Layout} {out : Section}
    (h : Composed inputs s layout out) {i : Nat} {input : Input} (hinput : inputs[i]? = some input)
    (hwell : input.file.WellFormed) {k : Nat} (hk : 4 ∣ k) (hin : k + 4 ≤ input.extent s)
    {x : Instruction} (hdecode : Instruction.decode Table.standard (Bytes.wordAt (input.bytes s) k) = .ok x) :
    ∃ y, Instruction.decode Table.standard (Bytes.wordAt out.data (layout.offsetOf out.addr i + k)) = .ok y ∧
      y.Alike x := by
  refine Instruction.decode_of_low hdecode ?_
  apply Nat.eq_of_testBit_eq
  intro b
  rw [Nat.testBit_mod_two_pow, Nat.testBit_mod_two_pow]
  by_cases hb : b < x.mnemonic.format.fieldStart
  · have hword := lt_of_lt_of_le hb x.mnemonic.format.fieldStart_le
    have hplace : 8 * layout.offsetOf out.addr i + (8 * k + b) =
        8 * (layout.offsetOf out.addr i + k) + b := by ring
    rcases h.bits i input hinput (8 * k + b) (by omega) with hsame | ⟨r, hr, hsegment, hchanges⟩
    · rw [hplace, Bytes.bitAt_word _ _ hword, Bytes.bitAt_word _ _ hword] at hsame
      rw [hsame]
    · obtain ⟨seg, patch, hplaced⟩ := hwell.placed r hr
      obtain rfl : seg = s := hplaced.segment_eq.symm.trans hsegment
      exact absurd hchanges (hplaced.spares hk hdecode hb)
  · simp only [hb, decide_false, Bool.false_and]

/-- The words of a relocation end well before the end of the address space. -/
theorem position_le {file : ObjectFile} (h : file.WellFormed) {r : Relocation} (hr : r ∈ file.relocations) :
    r.position.toNat ≤ 2 ^ 64 - 17 := by
  obtain ⟨s, patch, hplaced⟩ := h.placed r hr
  have hinside := hplaced.inside
  have hsize := h.size s
  rw [Bytes.lengthMax] at hsize
  omega

/-- A section of linked code. It starts at its fixed address, stays in the address space and takes the
    memory of its data, which is composed of the code of the inputs, all of it whole words. -/
structure Coded (inputs : List Input) (s : Segment) (layout : Layout) (out : Section) : Prop where
  align : s.align.toNat = 4
  addr : out.addr = s.base
  fits : s.base.toNat + out.data.size < 2 ^ 64
  memory : out.memSize = Bytes.size64 out.data
  composed : Composed inputs s layout out
  extent : ∀ input ∈ inputs, input.extent s = (input.bytes s).size ∧ 4 ∣ input.extent s

/-- The code of an executable. -/
theorem combine_coded {inputs : List Input} (hwell : ∀ input ∈ inputs, input.file.WellFormed)
    {exe : ObjectFile} {log : List Event} (h : combine inputs = .ok (exe, log)) :
    ∃ layouts placed, layOutAll inputs = .ok (layouts, placed) ∧
      ∀ s : Segment, s.isCode = true → Coded inputs s (layouts.get s) (exe.sections.get s) := by
  obtain ⟨layouts, placed, hlaid, hcomposed⟩ := combine_composed h
    fun input hinput _ hr => position_le (hwell input hinput) hr
  obtain ⟨-, -, -, -, -, hsections, -⟩ := combine_patched hwell h
  refine ⟨layouts, placed, hlaid, fun s hcode => ?_⟩
  obtain ⟨haddr, hend, hmemory⟩ := hsections s hcode
  have halign : s.align.toNat = 4 ∧ 4 ≤ s.base.toNat := by
    cases s <;> first | exact ⟨by decide, by decide⟩ | cases hcode
  refine ⟨halign.1, haddr, hend, hmemory, hcomposed s (by omega), ?_⟩
  intro input hinput
  have hsize := size_section (hwell input hinput) s
  refine ⟨hsize, ?_⟩
  rw [Input.extent, hsize]
  exact (hwell input hinput).code s hcode

namespace Coded

variable {inputs : List Input} {s : Segment} {layout : Layout} {out : Section}

/-- A byte of code is one of an input. -/
theorem exists_input (h : Coded inputs s layout out) {o : Nat} (ho : o < out.data.size) :
    ∃ i input k, inputs[i]? = some input ∧ k < input.extent s ∧ o = layout.offsetOf out.addr i + k := by
  obtain ⟨i, input, hinput, hfrom, hto⟩ := h.composed.tight
    (fun input hinput => h.align ▸ (h.extent input hinput).2) o ho
  obtain ⟨k, rfl⟩ := Nat.exists_eq_add_of_le hfrom
  exact ⟨i, input, k, hinput, by omega, rfl⟩

/-- A word of code is one of an input. -/
theorem exists_word (h : Coded inputs s layout out) {o : Nat} (ho : 4 ∣ o) (hin : o + 4 ≤ out.data.size) :
    ∃ i input k, inputs[i]? = some input ∧ 4 ∣ k ∧ k + 4 ≤ input.extent s ∧
      o = layout.offsetOf out.addr i + k := by
  obtain ⟨i, input, k, hinput, hk, rfl⟩ := h.exists_input (by omega : o < out.data.size)
  have hoffset : 4 ∣ layout.offsetOf out.addr i := h.align ▸ h.composed.aligned i input hinput
  have hwords := (h.extent input (List.mem_of_getElem? hinput)).2
  have hplace : 4 ∣ k := (Nat.dvd_add_right hoffset).1 ho
  exact ⟨i, input, k, hinput, hplace, by omega, rfl⟩

/-- Code is whole words. -/
theorem dvd_size (h : Coded inputs s layout out) : 4 ∣ out.data.size := by
  rcases Nat.eq_zero_or_pos out.data.size with hempty | hfull
  · rw [hempty]
    exact dvd_zero 4
  · -- the last byte is one of an input, whose code ends where all of it does
    obtain ⟨i, input, k, hinput, hk, hlast⟩ := h.exists_input (Nat.sub_lt hfull Nat.one_pos)
    have hinside := h.composed.inside i input hinput
    have hstop : out.data.size = layout.offsetOf out.addr i + input.extent s := by omega
    rw [hstop]
    exact Nat.dvd_add (h.align ▸ h.composed.aligned i input hinput)
      (h.extent input (List.mem_of_getElem? hinput)).2

end Coded

/-- Every word of the code of an executable comes from a word of an input, which it decodes as. The code
    starts at its fixed address, stays in the address space, and takes the memory of its words. -/
theorem combine_words {inputs : List Input} (hwell : ∀ input ∈ inputs, input.file.WellFormed)
    {exe : ObjectFile} {log : List Event} (h : combine inputs = .ok (exe, log)) :
    ∃ layouts placed, layOutAll inputs = .ok (layouts, placed) ∧
      ∀ s : Segment, s.isCode = true → (exe.sections.get s).addr = s.base ∧
        (exe.sections.get s).data.size < 2 ^ 64 ∧
        (exe.sections.get s).memSize = Bytes.size64 (exe.sections.get s).data ∧
        ∀ o, 4 ∣ o → o + 4 ≤ (exe.sections.get s).data.size → ∃ i input k, inputs[i]? = some input ∧
          4 ∣ k ∧ k + 4 ≤ (input.bytes s).size ∧
          o = (layouts.get s).offsetOf (exe.sections.get s).addr i + k ∧
          ∀ x, Instruction.decode Table.standard (Bytes.wordAt (input.bytes s) k) = .ok x →
            ∃ y, Instruction.decode Table.standard (Bytes.wordAt (exe.sections.get s).data o) = .ok y ∧
              y.Alike x := by
  obtain ⟨layouts, placed, hlaid, hcoded⟩ := combine_coded hwell h
  refine ⟨layouts, placed, hlaid, fun s hcode => ?_⟩
  have hout := hcoded s hcode
  have hfits := hout.fits
  refine ⟨hout.addr, by omega, hout.memory, ?_⟩
  intro o ho hin
  obtain ⟨i, input, k, hinput, hk, hinside, rfl⟩ := hout.exists_word ho hin
  have hmem := List.mem_of_getElem? hinput
  refine ⟨i, input, k, hinput, hk, (hout.extent input hmem).1 ▸ hinside, rfl, ?_⟩
  intro x hdecode
  exact hout.composed.decodes hinput (hwell input hmem) hk hinside hdecode

end Linker

end VectorRisc
