/-
Module: VectorRisc.Proofs.Machine.Immediate
Layer: Proofs
Purpose: Loading a value by its slices. The slices that the assembler chooses for a value put it into a
  register whatever the register held, and no fewer slices do so.
Imports: Mathlib.Tactic, VectorRisc.Proofs.Instruction.RoundTrip, VectorRisc.Proofs.Machine.Straight
Trusted boundary: none
Main exports: Machine.spliced, Machine.foldl_spliced_loadSlices, Machine.length_loadSlices_le,
  Word.Splices, Machine.runs_splices, Machine.loadImmediate_exact_minimal
Open obligations: none
-/
import Mathlib.Tactic
import VectorRisc.Proofs.Instruction.RoundTrip
import VectorRisc.Proofs.Machine.Straight

namespace VectorRisc

namespace Machine

open Assembler

/-! ### Slices put into a register -/

/-- A register after a slice is loaded into it. -/
def spliced (before : UInt64) (p : Nat × UInt16) : UInt64 :=
  withSlice before (UInt64.ofNat p.1) p.2.toUInt64.toInt64

/-- A sixteen-bit number in a whole register. -/
def extended (slice : UInt16) : UInt64 := slice.toInt16.toInt64.toUInt64

theorem spliced_zero (before : UInt64) (slice : UInt16) : spliced before (0, slice) = extended slice :=
  withSlice_zero before slice

theorem sliceOf_spliced (before : UInt64) {p : Nat × UInt16} (hpos : 0 < p.1) (hp : p.1 < 4) {n : Nat}
    (hn : n < 4) : sliceOf (spliced before p) n = if n = p.1 then p.2 else sliceOf before n :=
  sliceOf_withSlice before p.2 hpos hp hn

theorem toUInt64_signExtend (slice : UInt16) :
    (signExtend slice.toUInt64 16).toUInt64 = extended slice := by
  have hvalue : withSlice 0 0 slice.toUInt64.toInt64 =
      (signExtend (slice.toUInt64 &&& 0xffff) 16).toUInt64 := rfl
  rw [← and_sliceMask, ← hvalue, withSlice_zero, extended]

/-- Slices of a value above the lowest one, put into a register one after the other. -/
theorem sliceOf_foldl_spliced (value : UInt64) {ps : List (Nat × UInt16)}
    (hps : ∀ p ∈ ps, 0 < p.1 ∧ p.1 < 4 ∧ p.2 = sliceOf value p.1) (before : UInt64) {n : Nat} (hn : n < 4) :
    sliceOf (ps.foldl spliced before) n =
      if n ∈ ps.map Prod.fst then sliceOf value n else sliceOf before n := by
  induction ps generalizing before with
  | nil => simp
  | cons p ps ih =>
      obtain ⟨hpos, hlt, hslice⟩ := hps p List.mem_cons_self
      rw [List.foldl_cons, ih (fun q hq => hps q (List.mem_cons_of_mem p hq)),
        sliceOf_spliced before hpos hlt hn]
      by_cases hrest : n ∈ ps.map Prod.fst
      · simp [hrest]
      · by_cases hsame : n = p.1
        · simp [hsame, hslice]
        · simp [hrest, hsame]

/-- The slices above the lowest one that differ from what the lowest one leaves behind. -/
def upperSlices (value : UInt64) : List (Nat × UInt16) :=
  ([1, 2, 3].map fun n => (n, sliceOf value n)).filter fun p =>
    p.2 ≠ sliceOf (extended (sliceOf value 0)) p.1

theorem loadSlices_eq (value : UInt64) :
    loadSlices value = (0, sliceOf value 0) :: upperSlices value := by
  simp only [loadSlices, slices, upperSlices, toUInt64_signExtend, List.map_cons, List.map_nil]
  rw [List.filter_cons_of_pos (by simp)]
  rfl

theorem mem_upperSlices {value : UInt64} {p : Nat × UInt16} :
    p ∈ upperSlices value ↔ (0 < p.1 ∧ p.1 < 4 ∧ p.2 = sliceOf value p.1) ∧
      p.2 ≠ sliceOf (extended (sliceOf value 0)) p.1 := by
  obtain ⟨k, slice⟩ := p
  simp only [upperSlices, List.mem_filter, List.mem_map, List.mem_cons, List.not_mem_nil, or_false,
    Prod.mk.injEq, decide_eq_true_eq]
  refine and_congr_left' ⟨?_, ?_⟩
  · rintro ⟨n, hn, rfl, rfl⟩
    exact ⟨by omega, by omega, rfl⟩
  · rintro ⟨hpos, hlt, rfl⟩
    exact ⟨k, by omega, rfl, rfl⟩

/-- The chosen slices make up the value, whatever the register held. -/
theorem foldl_spliced_loadSlices (value before : UInt64) :
    (loadSlices value).foldl spliced before = value := by
  apply eq_of_sliceOf
  intro n hn
  rw [loadSlices_eq, List.foldl_cons, spliced_zero,
    sliceOf_foldl_spliced value (fun p hp => (mem_upperSlices.1 hp).1) _ hn]
  split
  · rfl
  · rename_i hleft
    -- a slice that was left out is what the lowest one left behind
    rcases Nat.eq_zero_or_pos n with rfl | hpos
    · exact sliceOf_toInt64 _
    · by_contra hdiffers
      exact hleft (List.mem_map.2 ⟨(n, sliceOf value n),
        mem_upperSlices.2 ⟨⟨hpos, hn, rfl⟩, fun h => hdiffers h.symm⟩, rfl⟩)

/-- All four slices make up the value too. -/
theorem foldl_spliced_slices (value before : UInt64) :
    (slices value).foldl spliced before = value := by
  have hslices : slices value =
      (0, sliceOf value 0) :: [1, 2, 3].map fun n => (n, sliceOf value n) := rfl
  apply eq_of_sliceOf
  intro n hn
  rw [hslices, List.foldl_cons, spliced_zero, sliceOf_foldl_spliced value _ _ hn]
  · split
    · rfl
    · rename_i hleft
      obtain rfl : n = 0 := by
        simp only [List.map_cons, List.map_nil, List.mem_cons, List.not_mem_nil, or_false] at hleft
        omega
      exact sliceOf_toInt64 _
  · simp

/-! ### The least number of slices -/

/-- The number of slices above the lowest one in which a register differs from a value. -/
def missing (value before : UInt64) : Nat :=
  [1, 2, 3].countP fun n => sliceOf value n ≠ sliceOf before n

theorem length_loadSlices (value : UInt64) :
    (loadSlices value).length = missing value (extended (sliceOf value 0)) + 1 := by
  rw [loadSlices_eq, List.length_cons, upperSlices, ← List.countP_eq_length_filter, List.countP_map]
  rfl

/-- A lower bound of the slices that have yet to be loaded. A register whose lowest slice is wrong has to
    be loaded from the lowest slice on; any other may go on, or start again. -/
def toGo (value before : UInt64) : Nat :=
  if sliceOf value 0 = sliceOf before 0 then min (missing value before) (loadSlices value).length
  else (loadSlices value).length

theorem missing_le_spliced (value before : UInt64) {p : Nat × UInt16} (hpos : 0 < p.1) (hp : p.1 < 4) :
    missing value before ≤ missing value (spliced before p) + 1 := by
  have h1 := sliceOf_spliced before hpos hp (by decide : 1 < 4)
  have h2 := sliceOf_spliced before hpos hp (by decide : 2 < 4)
  have h3 := sliceOf_spliced before hpos hp (by decide : 3 < 4)
  simp only [missing, List.countP_cons, List.countP_nil, h1, h2, h3]
  obtain ⟨k, slice⟩ := p
  simp only at hpos hp ⊢
  interval_cases k <;> simp <;> split <;> split <;> split <;> split <;> omega

/-- One slice brings the value nearer by no more than one. -/
theorem toGo_le_spliced (value before : UInt64) {p : Nat × UInt16} (hp : p.1 < 4) :
    toGo value before ≤ toGo value (spliced before p) + 1 := by
  have hmost : toGo value before ≤ (loadSlices value).length := by
    rw [toGo]
    split <;> omega
  rcases Nat.eq_zero_or_pos p.1 with hzero | hpos
  · obtain ⟨k, slice⟩ := p
    obtain rfl : k = 0 := hzero
    have hlength := length_loadSlices value
    rw [spliced_zero, toGo.eq_def value (extended slice), extended, sliceOf_toInt64]
    split
    · rename_i hsame
      rw [← hsame]
      rw [extended] at hlength
      omega
    · omega
  · have hlowest := sliceOf_spliced before hpos hp (by decide : 0 < 4)
    rw [if_neg (by omega)] at hlowest
    have hmissing := missing_le_spliced value before hpos hp
    rw [toGo, toGo, hlowest]
    split <;> omega

theorem toGo_foldl_spliced (value before : UInt64) {ps : List (Nat × UInt16)} (hps : ∀ p ∈ ps, p.1 < 4) :
    toGo value before ≤ toGo value (ps.foldl spliced before) + ps.length := by
  induction ps generalizing before with
  | nil => simp
  | cons p ps ih =>
      have hstep := toGo_le_spliced value before (hps p List.mem_cons_self)
      have hrest := ih (spliced before p) fun q hq => hps q (List.mem_cons_of_mem p hq)
      rw [List.foldl_cons, List.length_cons]
      omega

theorem sliceOf_add_one_ne (value : UInt64) : sliceOf value 0 ≠ sliceOf (value + 1) 0 := by
  have hslice (v : UInt64) : (sliceOf v 0).toNat = v.toNat % 2 ^ 16 := UInt64.toNat_toUInt16 v
  intro h
  have hnat := congrArg UInt16.toNat h
  rw [hslice, hslice, UInt64.toNat_add] at hnat
  simp only [UInt64.toNat_one] at hnat
  omega

/-- Slices that load a value into every register are no fewer than the chosen ones. -/
theorem length_loadSlices_le {value : UInt64} {ps : List (Nat × UInt16)} (hps : ∀ p ∈ ps, p.1 < 4)
    (hloads : ps.foldl spliced (value + 1) = value) : (loadSlices value).length ≤ ps.length := by
  have hrun := toGo_foldl_spliced value (value + 1) hps
  have hend : toGo value value = 0 := by simp [toGo, missing]
  rw [hloads, hend, Nat.zero_add] at hrun
  rwa [toGo, if_neg (sliceOf_add_one_ne value)] at hrun

end Machine

/-! ### The words of slices -/

/-- The word is an instruction that loads a slice into a register. -/
def Word.LoadsSlice (w : Word) (rd : UInt8) : Prop :=
  ∃ x, Instruction.decode Table.standard w = .ok x ∧ x.mnemonic ∈ Mnemonic.immediateSlices ∧ x.rd = rd

/-- The word is the instruction that loads a given slice into a register. -/
def Word.Splices (w : Word) (rd : UInt8) (p : Nat × UInt16) : Prop :=
  p.1 < 4 ∧ ∃ x, Instruction.decode Table.standard w = .ok x ∧ x.mnemonic ∈ Mnemonic.immediateSlices ∧
    x.rd = rd ∧ x.mnemonic.func = UInt16.ofNat p.1 ∧ x.imm = p.2.toUInt64.toInt64

theorem Word.Splices.loadsSlice {w : Word} {rd : UInt8} {p : Nat × UInt16} (h : w.Splices rd p) :
    w.LoadsSlice rd := by
  obtain ⟨-, x, hdecode, hm, hrd, -, -⟩ := h
  exact ⟨x, hdecode, hm, hrd⟩

theorem Word.LoadsSlice.splices {w : Word} {rd : UInt8} (h : w.LoadsSlice rd) :
    ∃ p, w.Splices rd p := by
  obtain ⟨x, hdecode, hm, hrd⟩ := h
  obtain ⟨m, -, -, -, rfl⟩ := Instruction.decode_eq_ok_iff.1 hdecode
  rw [Word.unpack_mnemonic] at hm
  refine ⟨(m.func.toNat, w.immEI), (Mnemonic.immediateSlice_name m hm).1, _, hdecode, ?_, hrd, ?_, ?_⟩
  · rwa [Word.unpack_mnemonic]
  · rw [Word.unpack_mnemonic, UInt16.ofNat_toNat]
  · rw [Word.unpack, (Mnemonic.immediateSlice_code m hm).1]

namespace Assembler

open Mnemonic

/-- The pseudo-instruction that loads a value. -/
def loadImmediate : Mnemonic := expanded "li" [.rd, .imm]

/-- The table has the instruction of each slice. -/
theorem lookup?_slice : ∀ n < 4, ∃ m ∈ immediateSlices,
    Table.standard.lookup? (Text.ofString (sliceName n)) = some m ∧ m.isPseudo = false ∧
      m.func = UInt16.ofNat n ∧ m.imm = .slice := by
  decide +kernel

/-- The step that loads a slice has a word, which loads it. -/
theorem sliceStep_word {rd : UInt8} (hrd : rd < 32) {p : Nat × UInt16} (hp : p.1 < 4) :
    ∃ x w, (sliceStep rd p.1 p.2).instruction Table.standard = .ok x ∧ x.encode = .ok w ∧
      w.Splices rd p := by
  obtain ⟨n, slice⟩ := p
  obtain ⟨m, hm, hlookup, hreal, hfunc, himm⟩ := lookup?_slice n hp
  obtain ⟨hformat, hopcode, hcode⟩ := immediateSlice_code m hm
  have hcheck : Instruction.check { mnemonic := m, rd := rd, imm := slice.toUInt64.toInt64 } = .ok () := by
    have hvalue := UInt16.toNat_toUInt64 slice
    have hlt := slice.toNat_lt
    rw [Instruction.check_eq_ok_iff rfl, himm, ImmediateKind.fits_slice, toInt_toInt64 (by omega), hvalue]
    exact ⟨by simp, by omega, by omega⟩
  refine ⟨{ mnemonic := m, rd := rd, imm := slice.toUInt64.toInt64 },
    Word.ofEI m.opcode m.func.toUInt8 rd slice, ?_, ?_, hp, ?_⟩
  · simp only [Step.instruction, sliceStep, hlookup, hreal, Bool.false_eq_true, if_false]
  · simp only [Instruction.encode, hcheck, hformat]
    simp
  · refine ⟨_, Instruction.decode_slice hm (by simpa using hopcode) (by simpa using hcode), hm, ?_, hfunc, ?_⟩
    · simp [Instruction.and_registerMask hrd]
    · simp

/-- The steps that load slices have words, which load them in the same order. -/
theorem sliceSteps_words {rd : UInt8} (hrd : rd < 32) {ps : List (Nat × UInt16)}
    (hps : ∀ p ∈ ps, p.1 < 4) :
    ∃ parts words, instructionsOf Table.standard (ps.map fun (n, slice) => sliceStep rd n slice) =
        .ok parts ∧ encodeAll parts = .ok words ∧
      List.Forall₂ (fun w p => Word.Splices w rd p) words ps := by
  induction ps with
  | nil => exact ⟨[], [], rfl, rfl, .nil⟩
  | cons p ps ih =>
      obtain ⟨x, w, hx, hw, hsplices⟩ := sliceStep_word hrd (hps p List.mem_cons_self)
      obtain ⟨parts, words, hparts, hwords, hrest⟩ := ih fun q hq => hps q (List.mem_cons_of_mem p hq)
      refine ⟨x :: parts, w :: words, ?_, ?_, .cons hsplices hrest⟩
      · simp only [List.map_cons, instructionsOf, hx, hparts]
        rfl
      · simp only [encodeAll, hw, hwords]
        rfl

theorem realInstructions_loadImmediate (rd : UInt8) (value : UInt64) :
    realInstructions Table.standard { mnemonic := loadImmediate, rd := rd, imm := value.toInt64 } =
      instructionsOf Table.standard ((loadSlices value).map fun (n, slice) => sliceStep rd n slice) :=
  realInstructions_of_steps rfl rfl

theorem realInstructions_loadNumber (rd : UInt8) (value : UInt64) :
    realInstructions Table.standard { mnemonic := loadAddress, rd := rd, imm := value.toInt64 } =
      instructionsOf Table.standard ((slices value).map fun (n, slice) => sliceStep rd n slice) :=
  realInstructions_of_steps rfl rfl

end Assembler

namespace Machine

open Assembler Mnemonic

variable {σ : Type} [FileSystem σ] {m : Machine σ} {rd : UInt8}

/-! ### Words that load slices -/

/-- A slice that is loaded changes its register only. -/
theorem passes_splices {w : Word} {p : Nat × UInt16} (hstandard : m.Standard) (hrunning : m.halted = false)
    (h : w.Splices rd p) :
    ∃ next, m.Passes w (m.registers.set rd (spliced (m.get rd) p)) m.memory next := by
  obtain ⟨hlt, x, hdecode, hm, rfl, hfunc, himm⟩ := h
  have hreads : m.Reads w x .slice :=
    ⟨hstandard, hrunning, hdecode, immediateSlice_action x.mnemonic hm⟩
  have hcode : x.mnemonic.func.toUInt64 = UInt64.ofNat p.1 := by
    rw [hfunc]
    obtain ⟨k, slice⟩ := p
    simp only at hlt
    interval_cases k <;> rfl
  obtain ⟨next, hnext⟩ := hreads.passes_slice
  rw [hcode, himm] at hnext
  exact ⟨next, hnext⟩

/-- Slices that are loaded one after the other change their register only. They write nothing. -/
theorem runs_splices (hzero : rd ≠ Register.zero) {words : List Word} {ps : List (Nat × UInt16)}
    (h : List.Forall₂ (fun w p => Word.Splices w rd p) words ps) (hstandard : m.Standard)
    (hrunning : m.halted = false) :
    ∃ after, m.Runs (fun _ => False) words after ∧ after.memory = m.memory ∧
      after.registers.Agree (m.registers.set rd (ps.foldl spliced (m.get rd))) := by
  induction h generalizing m with
  | nil =>
      refine ⟨m, .nil _ hstandard hrunning, rfl, ?_⟩
      rw [List.foldl_nil, get, Registers.set_get]
      exact .refl m.registers
  | @cons w p words ps hw _ ih =>
      obtain ⟨next, hnext⟩ := passes_splices hstandard hrunning hw
      obtain ⟨after, hruns, hmemory, hregisters⟩ := ih hnext.standard hnext.running
      have hloaded : next.get rd = spliced (m.get rd) p :=
        (hnext.registers.get_eq rd).trans (Registers.get_set_self m.registers hzero _)
      refine ⟨after, hruns.cons hnext fun _ _ _ hfetch => hfetch, hmemory.trans hnext.memory, ?_⟩
      rw [hloaded] at hregisters
      have hset := hnext.registers.set rd (ps.foldl spliced (spliced (m.get rd) p))
      rw [Registers.set_set] at hset
      exact hregisters.trans hset

/-- Executing words leaves a value in a register, and all else that a program sees as it was. -/
def LeavesValue (m : Machine σ) (words : List Word) (rd : UInt8) (value : UInt64) : Prop :=
  ∃ after, m.Runs (fun _ => False) words after ∧ after.get rd = value ∧
    (∀ r < 32, r ≠ rd → after.get r = m.get r) ∧ after.registers.vectors = m.registers.vectors ∧
    after.registers.hi = m.registers.hi ∧ after.registers.lo = m.registers.lo ∧ after.memory = m.memory

theorem leavesValue_of_splices (hrd : rd < 32) (hzero : rd ≠ Register.zero) {words : List Word}
    {ps : List (Nat × UInt16)} (h : List.Forall₂ (fun w p => Word.Splices w rd p) words ps) {value : UInt64}
    (hvalue : ∀ before, ps.foldl spliced before = value) (hstandard : m.Standard)
    (hrunning : m.halted = false) : m.LeavesValue words rd value := by
  obtain ⟨after, hruns, hmemory, hregisters⟩ := runs_splices hzero h hstandard hrunning
  rw [hvalue] at hregisters
  refine ⟨after, hruns, ?_, ?_, ?_, ?_, ?_, hmemory⟩
  · exact (hregisters.get_eq rd).trans (Registers.get_set_self m.registers hzero value)
  · intro r hr hother
    rw [get, hregisters.get_eq, Registers.get_set m.registers hzero, if_neg]
    · rfl
    · rwa [Registers.place_eq_iff hr hrd]
  · exact hregisters.vectors.trans (by rw [Registers.set, if_neg hzero])
  · exact hregisters.hi.trans (by rw [Registers.set, if_neg hzero])
  · exact hregisters.lo.trans (by rw [Registers.set, if_neg hzero])

/-- Fewer slices than the chosen ones leave another value, if the register starts with the next one. -/
theorem misses_of_length_lt (hzero : rd ≠ Register.zero) {words : List Word}
    (hwords : ∀ w ∈ words, w.LoadsSlice rd) {value : UInt64}
    (hlength : words.length < (loadSlices value).length) (hstandard : m.Standard)
    (hrunning : m.halted = false) :
    ∃ after, (m.set rd (value + 1)).Runs (fun _ => False) words after ∧ after.get rd ≠ value := by
  obtain ⟨ps, hps⟩ : ∃ ps, List.Forall₂ (fun w p => Word.Splices w rd p) words ps := by
    induction words with
    | nil => exact ⟨[], .nil⟩
    | cons w words ih =>
        obtain ⟨p, hp⟩ := (hwords w List.mem_cons_self).splices
        obtain ⟨ps, hps⟩ := ih (fun w' hw' => hwords w' (List.mem_cons_of_mem w hw')) (by
          rw [List.length_cons] at hlength
          omega)
        exact ⟨p :: ps, .cons hp hps⟩
  have hstart : (m.set rd (value + 1)).get rd = value + 1 :=
    Registers.get_set_self m.registers hzero _
  obtain ⟨after, hruns, -, hregisters⟩ := runs_splices (m := m.set rd (value + 1)) hzero hps
    ⟨hstandard.table, hstandard.actions⟩ hrunning
  refine ⟨after, hruns, ?_⟩
  intro hloads
  have hend : after.get rd = ps.foldl spliced (value + 1) := by
    rw [get, hregisters.get_eq, Registers.get_set_self _ hzero, hstart]
  have hbound : ∀ p ∈ ps, p.1 < 4 := by
    exact ((List.forall₂_and_left _ _).1 (hps.flip.imp fun p w hw => ⟨hw.1, hw⟩)).1
  have hleast := length_loadSlices_le hbound (hend.symm.trans hloads)
  rw [← hps.length_eq] at hleast
  omega

/-- Loading a value is exact and takes the fewest slices. Whatever the state of the machine, the words of
    `li` leave the value in the register and all else as it was; and of every shorter list of instructions
    that load slices into the register, some start value of the register misses the value. `la` with a
    number leaves the number likewise. -/
theorem loadImmediate_exact_minimal (hrd : rd < 32) (hzero : rd ≠ Register.zero) (value : UInt64) :
    (∃ words, codesOf [{ mnemonic := loadImmediate, rd := rd, imm := value.toInt64 }] = .ok words ∧
      (∀ w ∈ words, w.LoadsSlice rd) ∧
      (∀ m : Machine σ, m.Standard → m.halted = false → m.LeavesValue words rd value) ∧
      ∀ shorter : List Word, (∀ w ∈ shorter, w.LoadsSlice rd) → shorter.length < words.length →
        ∀ m : Machine σ, m.Standard → m.halted = false → ∃ start after,
          (m.set rd start).Runs (fun _ => False) shorter after ∧ after.get rd ≠ value) ∧
    ∃ words, codesOf [{ mnemonic := loadAddress, rd := rd, imm := value.toInt64 }] = .ok words ∧
      ∀ m : Machine σ, m.Standard → m.halted = false → m.LeavesValue words rd value := by
  constructor
  · have hbound : ∀ p ∈ loadSlices value, p.1 < 4 := by
      intro p hp
      rw [loadSlices_eq, List.mem_cons] at hp
      rcases hp with rfl | hp
      · exact Nat.zero_lt_succ 3
      · exact (mem_upperSlices.1 hp).1.2.1
    obtain ⟨parts, words, hparts, hwords, hsplices⟩ := sliceSteps_words hrd hbound
    refine ⟨words, codesOf_singleton ((realInstructions_loadImmediate rd value).trans hparts) hwords, ?_, ?_, ?_⟩
    · exact ((List.forall₂_and_left _ _).1 (hsplices.imp fun w p hw => ⟨hw.loadsSlice, hw⟩)).1
    · intro m hstandard hrunning
      exact leavesValue_of_splices hrd hzero hsplices (foldl_spliced_loadSlices value) hstandard hrunning
    · intro shorter hshorter hlength m hstandard hrunning
      rw [hsplices.length_eq] at hlength
      exact ⟨value + 1, misses_of_length_lt hzero hshorter hlength hstandard hrunning⟩
  · have hbound : ∀ p ∈ slices value, p.1 < 4 := by simp [slices]
    obtain ⟨parts, words, hparts, hwords, hsplices⟩ := sliceSteps_words hrd hbound
    refine ⟨words, codesOf_singleton ((realInstructions_loadNumber rd value).trans hparts) hwords, ?_⟩
    intro m hstandard hrunning
    exact leavesValue_of_splices hrd hzero hsplices (foldl_spliced_slices value) hstandard hrunning

/-- The least number whose lowest slice alone would be taken for a negative one. -/
theorem loadImmediate_exact_minimal_halfword :
    (8 : UInt8) < 32 ∧ (8 : UInt8) ≠ Register.zero ∧
      codesOf [{ mnemonic := loadImmediate, rd := 8, imm := 0x8000 }] =
        .ok [Word.ofEI 2 0 8 0x8000, Word.ofEI 2 1 8 0, Word.ofEI 2 2 8 0, Word.ofEI 2 3 8 0] ∧
      ∀ m : Machine Disk, m.Standard → m.halted = false → m.LeavesValue
        [Word.ofEI 2 0 8 0x8000, Word.ofEI 2 1 8 0, Word.ofEI 2 2 8 0, Word.ofEI 2 3 8 0] 8 0x8000 := by
  have hcodes : codesOf [{ mnemonic := loadImmediate, rd := 8, imm := 0x8000 }] =
      .ok [Word.ofEI 2 0 8 0x8000, Word.ofEI 2 1 8 0, Word.ofEI 2 2 8 0, Word.ofEI 2 3 8 0] := by
    decide +kernel
  refine ⟨by decide, by decide, hcodes, ?_⟩
  obtain ⟨⟨words, hwords, -, hloads, -⟩, -⟩ :=
    loadImmediate_exact_minimal (σ := Disk) (by decide : (8 : UInt8) < 32) (by decide) 0x8000
  cases hwords.symm.trans hcodes
  exact hloads

end Machine

end VectorRisc
