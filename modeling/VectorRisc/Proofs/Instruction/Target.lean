/-
Module: VectorRisc.Proofs.Instruction.Target
Layer: Proofs
Purpose: Instructions with a label operand: which mnemonics have one, what the words of such an
  instruction decode to while its immediate is zero, and after the immediate is patched.
Imports: Mathlib.Tactic, VectorRisc.Assembler.Code, VectorRisc.Proofs.Outcome,
  VectorRisc.Proofs.Instruction.Code, VectorRisc.Proofs.Instruction.Word
Trusted boundary: none
Main exports: Mnemonic.target_cases, Patch.words, Patch.Hosts, Instruction.decode_setImmI,
  Instruction.decode_setAddrJ, Instruction.decode_setImmEI, Assembler.hosts_of_encodeAll
Open obligations: none
-/
import Mathlib.Tactic
import VectorRisc.Assembler.Code
import VectorRisc.Proofs.Outcome
import VectorRisc.Proofs.Instruction.Code
import VectorRisc.Proofs.Instruction.Word

namespace VectorRisc

namespace Mnemonic

/-! ### Mnemonics with a target -/

/-- The jumps to an address in the word. -/
def addressJumps : List Mnemonic := control.filter fun m => m.imm = .jump

/-- The pseudo-instruction that loads an address. -/
def loadAddress : Mnemonic := expanded "la" [.rd, .target]

set_option maxRecDepth 4000 in
/-- The mnemonics with a label operand. -/
theorem target_cases : ∀ m ∈ standard, OperandKind.target ∈ m.operands →
    m ∈ branches ∨ m ∈ addressJumps ∨ m ∈ immediateSlices ∨ m = loadAddress := by
  decide

theorem branch_code : ∀ m ∈ branches, m.format = .i ∧ m.imm = .branch := by
  decide

theorem addressJump_code : ∀ m ∈ addressJumps, m.format = .j ∧ m.operands.isEmpty = false := by
  decide

theorem immediateSlice_code : ∀ m ∈ immediateSlices, m.format = .ei ∧
    m.opcode &&& 0x7f = m.opcode ∧ (m.func.toUInt8 &&& 0xf).toUInt16 = m.func := by
  decide

end Mnemonic

namespace Instruction

open Mnemonic

/-! ### Decoding by code -/

/-- A word with the opcode of a branch is that branch. -/
theorem decode_branch {m : Mnemonic} (hm : m ∈ branches) {w : Word} (hop : w.opcode = m.opcode) :
    decode Table.standard w =
      .ok { mnemonic := m, rt := w.fieldD, rs := w.fieldS, imm := signExtend w.immI.toUInt64 15 } := by
  obtain ⟨hformat, himm⟩ := branch_code m hm
  rw [decode_of_carries (branch_mem hm) (by simp [isPseudo, hformat])
    ⟨hop, by simp [hformat], by simp [hformat]⟩]
  simp only [Word.unpack, hformat, himm, extendImmI]

/-- A word with the opcode of a jump is that jump. -/
theorem decode_addressJump {m : Mnemonic} (hm : m ∈ addressJumps) {w : Word}
    (hop : w.opcode = m.opcode) :
    decode Table.standard w = .ok { mnemonic := m, imm := (w.addrJ.toUInt64 <<< 2).toInt64 } := by
  obtain ⟨hformat, hoperands⟩ := addressJump_code m hm
  rw [decode_of_carries (control_mem (List.mem_of_mem_filter hm)) (by simp [isPseudo, hformat])
    ⟨hop, by simp [hformat], by simp [hformat]⟩]
  simp only [Word.unpack, hformat, hoperands, Bool.false_eq_true, if_false]

/-- A word with the opcode and the function code of a slice is that slice. -/
theorem decode_slice {m : Mnemonic} (hm : m ∈ immediateSlices) {w : Word} (hop : w.opcode = m.opcode)
    (hfunc : w.funcEI.toUInt16 = m.func) :
    decode Table.standard w =
      .ok { mnemonic := m, rd := w.fieldD, imm := w.immEI.toUInt64.toInt64 } := by
  obtain ⟨hformat, -, -⟩ := immediateSlice_code m hm
  rw [decode_of_carries (immediateSlice_mem hm) (by simp [isPseudo, hformat])
    ⟨hop, by simp [hformat], fun _ => hfunc⟩]
  simp only [Word.unpack, hformat]

/-! ### Replacing an immediate -/

/-- A branch with another immediate is the same branch. -/
theorem decode_setImmI {w : Word} {x : Instruction} (h : decode Table.standard w = .ok x)
    (hm : x.mnemonic ∈ branches) (imm : UInt16) :
    decode Table.standard (w.setImmI imm) =
      .ok { x with imm := signExtend (imm &&& 0x7fff).toUInt64 15 } := by
  obtain ⟨hop, -, -⟩ := carries_of_decode h
  have hx := (decode_branch hm hop).symm.trans h
  rw [decode_branch hm (w.opcode_setImmI imm ▸ hop), ← Except.ok.inj hx]
  simp

/-- A jump with another address is the same jump. -/
theorem decode_setAddrJ {w : Word} {x : Instruction} (h : decode Table.standard w = .ok x)
    (hm : x.mnemonic ∈ addressJumps) (addr : UInt32) :
    decode Table.standard (w.setAddrJ addr) =
      .ok { x with imm := ((addr &&& Word.addrMaskJ).toUInt64 <<< 2).toInt64 } := by
  obtain ⟨hop, -, -⟩ := carries_of_decode h
  have hx := (decode_addressJump hm hop).symm.trans h
  rw [decode_addressJump hm (w.opcode_setAddrJ addr ▸ hop), ← Except.ok.inj hx]
  simp

/-- A word that decodes to a slice has the slice's function code. -/
theorem funcEI_of_decode {w : Word} {x : Instruction} (h : decode Table.standard w = .ok x)
    (hm : x.mnemonic ∈ immediateSlices) :
    w.opcode = x.mnemonic.opcode ∧ w.funcEI.toUInt16 = x.mnemonic.func := by
  obtain ⟨hop, -, hei⟩ := carries_of_decode h
  exact ⟨hop, hei (immediateSlice_code _ hm).1⟩

/-- A slice with another immediate is the same slice. -/
theorem decode_setImmEI {w : Word} {x : Instruction} (h : decode Table.standard w = .ok x)
    (hm : x.mnemonic ∈ immediateSlices) (imm : UInt16) :
    decode Table.standard (w.setImmEI imm) = .ok { x with imm := imm.toUInt64.toInt64 } := by
  obtain ⟨hop, hfunc⟩ := funcEI_of_decode h hm
  have hx := (decode_slice hm hop hfunc).symm.trans h
  rw [decode_slice hm (w.opcode_setImmEI imm ▸ hop) (w.funcEI_setImmEI imm ▸ hfunc),
    ← Except.ok.inj hx]
  simp

/-! ### Reading a label -/

/-- A field that is set leaves the mnemonic and the label. -/
theorem label_of_map {α : Type} {r : Except Error α} {set : α → Instruction} {x y : Instruction}
    (h : r.map set = .ok y) (hset : ∀ a, (set a).mnemonic = x.mnemonic ∧ (set a).label = x.label) :
    y.mnemonic = x.mnemonic ∧ y.label = x.label := by
  obtain ⟨a, -, rfl⟩ := map_eq_ok.1 h
  exact hset a

/-- Only a target operand gives an instruction a label. -/
theorem label_of_readOperand {resolve : Resolver} {kind : OperandKind} {arg : Text}
    {x y : Instruction} (h : readOperand resolve kind arg x = .ok y) (hkind : kind ≠ .target) :
    y.mnemonic = x.mnemonic ∧ y.label = x.label := by
  simp only [readOperand] at h
  split at h
  · cases h
  · cases kind with
    | target => exact absurd rfl hkind
    | mem =>
        simp only at h
        split at h
        · cases h
        · split at h
          · cases h
          · split at h
            · cases h
              exact ⟨rfl, rfl⟩
            · exact label_of_map h fun _ => ⟨rfl, rfl⟩
    | index =>
        simp only at h
        split at h
        · cases h
        · split at h
          · cases h
          · exact label_of_map h fun _ => ⟨rfl, rfl⟩
    | unknown n =>
        cases h
        exact ⟨rfl, rfl⟩
    | _ => exact label_of_map h fun _ => ⟨rfl, rfl⟩

theorem mnemonic_of_readTarget {resolve : Resolver} {arg : Text} {x y : Instruction}
    (h : readOperand resolve .target arg x = .ok y) : y.mnemonic = x.mnemonic := by
  simp only [readOperand] at h
  split at h
  · cases h
  · split at h
    · cases h
    · cases h
      rfl
    · split at h <;> cases h
      rfl

/-- Operands leave the mnemonic, and the label unless one of them is a target. -/
theorem label_of_readOperands {resolve : Resolver} {index : Nat} {kinds : List OperandKind}
    {args : List Text} {x y : Instruction} (h : readOperands resolve index kinds args x = .ok y) :
    y.mnemonic = x.mnemonic ∧ (y.label = x.label ∨ OperandKind.target ∈ kinds) := by
  induction kinds generalizing index args x with
  | nil =>
      cases h
      exact ⟨rfl, .inl rfl⟩
  | cons kind kinds ih =>
      cases args with
      | nil =>
          cases h
          exact ⟨rfl, .inl rfl⟩
      | cons arg args =>
          rw [readOperands] at h
          split at h
          · cases h
          · rename_i next hnext
            obtain ⟨hmnemonic, hlabel⟩ := ih h
            by_cases hkind : kind = .target
            · subst hkind
              exact ⟨hmnemonic.trans (mnemonic_of_readTarget hnext), .inr List.mem_cons_self⟩
            · obtain ⟨hsame, hkept⟩ := label_of_readOperand hnext hkind
              rw [hsame] at hmnemonic
              rw [hkept] at hlabel
              exact ⟨hmnemonic, hlabel.imp id (List.mem_cons_of_mem _)⟩

/-- An instruction that is read is one of the table's, and has a label only as a target operand. -/
theorem parse_eq_ok {tb : Table} {resolve : Resolver} {line : Text} {x : Instruction}
    (h : parse tb resolve line = .ok x) :
    x.mnemonic ∈ tb.list ∧ (x.label = [] ∨ OperandKind.target ∈ x.mnemonic.operands) := by
  simp only [parse] at h
  split at h
  · cases h
  · rename_i m hm
    split at h
    · cases h
    · split at h
      · cases h
      · rename_i y hread
        obtain ⟨-, -, rfl⟩ := map_eq_ok.1 h
        obtain ⟨hmnemonic, hlabel⟩ := label_of_readOperands hread
        rw [hmnemonic]
        exact ⟨List.mem_of_find?_eq_some hm, hlabel⟩

end Instruction

/-! ### Words that wait for a patch -/

/-- The number of words that a patch changes. -/
@[simp] def Patch.words : Patch → Nat
  | .branch | .jump | .slice => 1
  | .address => 4

/-- The words are those a patch is meant for, with zero immediates: a branch, a jump, a slice, or the
    four slices of one register. -/
def Patch.Hosts (patch : Patch) (words : List Word) : Prop :=
  let one (mnemonics : List Mnemonic) : Prop :=
    ∃ x : Instruction, words.map (Instruction.decode Table.standard) = [.ok x] ∧
      x.mnemonic ∈ mnemonics ∧ x.imm = 0
  match patch with
  | .branch => one Mnemonic.branches
  | .jump => one Mnemonic.addressJumps
  | .slice => one Mnemonic.immediateSlices
  | .address => ∃ rd : UInt8, words.map (Instruction.decode Table.standard) =
      Mnemonic.immediateSlices.map fun m => .ok { mnemonic := m, rd := rd }

namespace Assembler

open Instruction Mnemonic

/-- A single instruction has a single word. -/
theorem encodeAll_singleton {x : Instruction} {codes : List Word} (h : encodeAll [x] = .ok codes) :
    ∃ w, codes = [w] ∧ x.encode = .ok w := by
  rw [encodeAll] at h
  split at h
  · cases h
  · rename_i w hw
    cases h
    exact ⟨w, rfl, hw⟩

/-- An instruction with a label passes its check, and leaves its immediate zero. -/
theorem check_of_label {x : Instruction} (h : x.label ≠ []) : check x = .ok () := by
  simp [check, h]

/-- The table has the instruction that loads a slice. -/
theorem lookup?_sliceName : ∀ p ∈ (List.range 4).zip immediateSlices,
    Table.standard.lookup? (Text.ofString (sliceName p.1)) = some p.2 ∧ p.2.isPseudo = false := by
  decide

/-- The step that loads a slice becomes the instruction of the table. -/
theorem instruction_sliceStep {n : Nat} {m : Mnemonic}
    (h : Table.standard.lookup? (Text.ofString (sliceName n)) = some m ∧ m.isPseudo = false)
    (rd : UInt8) :
    (sliceStep rd n 0).instruction Table.standard = .ok { mnemonic := m, rd := rd } := by
  simp only [Step.instruction, sliceStep, h.1, h.2, Bool.false_eq_true, if_false]
  rfl

theorem instructionsOf_sliceSteps (rd : UInt8) (ps : List (Nat × Mnemonic))
    (h : ∀ p ∈ ps, Table.standard.lookup? (Text.ofString (sliceName p.1)) = some p.2 ∧
      p.2.isPseudo = false) :
    instructionsOf Table.standard (ps.map fun p => sliceStep rd p.1 0) =
      .ok (ps.map fun p => { mnemonic := p.2, rd := rd }) := by
  induction ps with
  | nil => rfl
  | cons p ps ih =>
      have hrest := ih fun q hq => h q (List.mem_cons_of_mem _ hq)
      simp only [List.map_cons, instructionsOf, instruction_sliceStep (h p List.mem_cons_self), hrest]
      rfl

/-- The instructions that load an address by its slices. -/
theorem instructionsOf_slices (rd : UInt8) :
    instructionsOf Table.standard ((slices 0).map fun (n, slice) => sliceStep rd n slice) =
      .ok (immediateSlices.map fun m => { mnemonic := m, rd := rd }) := by
  have hslices : slices 0 = [(0, 0), (1, 0), (2, 0), (3, 0)] := by decide
  rw [hslices]
  exact instructionsOf_sliceSteps rd _ lookup?_sliceName

/-- The instructions that load an address which is not known yet. -/
theorem realInstructions_loadAddress {x : Instruction} (hm : x.mnemonic = loadAddress)
    (hlabel : x.label ≠ []) :
    realInstructions Table.standard x =
      .ok (immediateSlices.map fun m => { mnemonic := m, rd := x.rd }) := by
  have hnames : ∀ s ∈ ["not", "neg", "negw", "mov", "movw", "push", "pop", "ret"],
      Text.ofString "la" ≠ Text.ofString s := by decide
  simp only [List.mem_cons, forall_eq_or_imp, List.not_mem_nil, false_imp_iff, implies_true,
    and_true] at hnames
  have hla : loadAddress.name = Text.ofString "la" := rfl
  have hpseudo : loadAddress.isPseudo = true := rfl
  have hempty : x.label.isEmpty = false := by simpa using hlabel
  have hsteps : steps? x = some ((slices 0).map fun (n, slice) => sliceStep x.rd n slice) := by
    simp [steps?, hm, hnames, hla, hempty]
  simp only [realInstructions, hm, hpseudo, hsteps, Bool.not_true, Bool.false_eq_true, if_false]
  exact instructionsOf_slices x.rd

theorem encode_slice {m : Mnemonic} (hm : m ∈ immediateSlices) (rd : UInt8) :
    ({ mnemonic := m, rd := rd } : Instruction).encode =
      .ok (Word.ofEI m.opcode m.func.toUInt8 rd 0) := by
  have hslice : ∀ m ∈ immediateSlices, m.imm = .slice := by decide
  have hcheck : check { mnemonic := m, rd := rd } = .ok () := by
    simp [check, hslice m hm, ImmediateKind.range?]
  simp only [encode, hcheck, (immediateSlice_code m hm).1]
  rfl

theorem encodeAll_slices (ms : List Mnemonic) (hms : ∀ m ∈ ms, m ∈ immediateSlices) (rd : UInt8) :
    encodeAll (ms.map fun m => { mnemonic := m, rd := rd }) =
      .ok (ms.map fun m => Word.ofEI m.opcode m.func.toUInt8 rd 0) := by
  induction ms with
  | nil => rfl
  | cons m ms ih =>
      have hm := hms m List.mem_cons_self
      have hrest := ih fun m' hm' => hms m' (List.mem_cons_of_mem _ hm')
      simp only [List.map_cons, encodeAll, encode_slice hm, hrest]
      rfl

/-- A slice with a zero immediate decodes to itself. -/
theorem decode_ofEI {m : Mnemonic} (hm : m ∈ immediateSlices) (rd : UInt8) :
    decode Table.standard (Word.ofEI m.opcode m.func.toUInt8 rd 0) =
      .ok { mnemonic := m, rd := rd &&& 0x1f } := by
  obtain ⟨-, hop, hfunc⟩ := immediateSlice_code m hm
  rw [decode_slice hm (by simpa using hop) (by simpa using hfunc)]
  simp

/-- The words of an instruction with a label are those its patch is meant for. -/
theorem hosts_of_encodeAll {x : Instruction} {parts : List Instruction} {codes : List Word}
    (hm : x.mnemonic ∈ standard) (htarget : OperandKind.target ∈ x.mnemonic.operands)
    (hlabel : x.label ≠ []) (hparts : realInstructions Table.standard x = .ok parts)
    (hcodes : encodeAll parts = .ok codes) :
    (patchOf x.mnemonic.format).Hosts codes := by
  have hempty : x.label.isEmpty = false := by simpa using hlabel
  have hsingle (hreal : x.mnemonic.isPseudo = false) : ∃ w, codes = [w] ∧ x.encode = .ok w := by
    simp only [realInstructions, hreal, Bool.not_false, if_true, Except.ok.injEq] at hparts
    subst hparts
    exact encodeAll_singleton hcodes
  rcases target_cases _ hm htarget with hbranch | hjump | hslice | hla
  · obtain ⟨hformat, -⟩ := branch_code _ hbranch
    have hreal : x.mnemonic.isPseudo = false := by simp [isPseudo, hformat]
    obtain ⟨hop, -, -⟩ := standard_code _ hm hreal
    obtain ⟨w, rfl, hw⟩ := hsingle hreal
    simp only [encode, check_of_label hlabel, hempty, hformat, Bool.false_eq_true, if_false,
      Except.ok.injEq] at hw
    subst hw
    have hword := decode_branch hbranch (w := Word.ofI x.mnemonic.opcode x.rt x.rs 0) (by simpa using hop)
    simp only [hformat, patchOf, Patch.Hosts]
    refine ⟨_, congrArg (fun r => [r]) hword, hbranch, ?_⟩
    simp
    decide
  · obtain ⟨hformat, -⟩ := addressJump_code _ hjump
    have hreal : x.mnemonic.isPseudo = false := by simp [isPseudo, hformat]
    obtain ⟨hop, -, -⟩ := standard_code _ hm hreal
    obtain ⟨w, rfl, hw⟩ := hsingle hreal
    simp only [encode, check_of_label hlabel, hempty, hformat, Bool.false_eq_true, if_false,
      Except.ok.injEq] at hw
    subst hw
    have hword := decode_addressJump hjump (w := Word.ofJ x.mnemonic.opcode 0) (by simpa using hop)
    simp only [hformat, patchOf, Patch.Hosts]
    refine ⟨_, congrArg (fun r => [r]) hword, hjump, ?_⟩
    simp
  · obtain ⟨hformat, -, -⟩ := immediateSlice_code _ hslice
    obtain ⟨w, rfl, hw⟩ := hsingle (by simp [isPseudo, hformat])
    simp only [encode, check_of_label hlabel, hempty, hformat, Bool.false_eq_true, if_false,
      Except.ok.injEq] at hw
    subst hw
    simp only [hformat, patchOf, Patch.Hosts]
    exact ⟨_, congrArg (fun r => [r]) (decode_ofEI hslice x.rd), hslice, rfl⟩
  · rw [realInstructions_loadAddress hla hlabel, Except.ok.injEq] at hparts
    subst hparts
    rw [encodeAll_slices _ (fun _ h => h), Except.ok.injEq] at hcodes
    subst hcodes
    rw [hla]
    refine ⟨x.rd &&& 0x1f, ?_⟩
    rw [List.map_map]
    refine List.map_congr_left ?_
    intro m hm
    exact decode_ofEI hm x.rd

/-- The words of an instruction with a label are as many as its patch changes. -/
theorem length_of_hosts {patch : Patch} {words : List Word} (h : patch.Hosts words) :
    words.length = patch.words := by
  cases patch with
  | address =>
      obtain ⟨rd, hwords⟩ := h
      simpa [immediateSlices] using congrArg List.length hwords
  | _ =>
      obtain ⟨x, hwords, -⟩ := h
      simpa using congrArg List.length hwords

end Assembler

end VectorRisc
