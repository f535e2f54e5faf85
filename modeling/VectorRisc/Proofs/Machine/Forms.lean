/-
Module: VectorRisc.Proofs.Machine.Forms
Layer: Proofs
Purpose: Forms of the same operation agree. An instruction with an immediate computes what its register
  form does with the immediate in a register, and an access at an offset does what the access at a scaled
  index does that comes to the same address.
Imports: Mathlib.Tactic, VectorRisc.Proofs.Instruction.RoundTrip, VectorRisc.Proofs.Machine.Effect
Trusted boundary: none
Main exports: Machine.ImmediateForm, Machine.immediateForms, Machine.AccessForm, Machine.accessForms,
  Machine.imm_of_decode, Machine.perform_elsewhere, Machine.forms_agree
Open obligations: none
-/
import Mathlib.Tactic
import VectorRisc.Proofs.Instruction.RoundTrip
import VectorRisc.Proofs.Machine.Effect

namespace VectorRisc

namespace Machine

/-! ### Pairs of forms -/

/-- The names of an operation with an immediate and with a register in its place, and whether the
    immediate has a sign. -/
structure ImmediateForm where
  immediate : String
  register : String
  signed : Bool
deriving DecidableEq

def immediateForms : List ImmediateForm :=
  [⟨"addi", "add", true⟩, ⟨"addiu", "add", false⟩, ⟨"addiw", "addw", true⟩, ⟨"andi", "and", true⟩,
    ⟨"andiu", "and", false⟩, ⟨"ori", "or", true⟩, ⟨"oriu", "or", false⟩, ⟨"xori", "xor", true⟩,
    ⟨"xoriu", "xor", false⟩, ⟨"slti", "slt", true⟩, ⟨"sltiu", "sltu", false⟩, ⟨"slli", "sll", false⟩,
    ⟨"srli", "srl", false⟩, ⟨"srai", "sra", false⟩, ⟨"slliw", "sllw", false⟩, ⟨"srliw", "srlw", false⟩,
    ⟨"sraiw", "sraw", false⟩]

/-- The names of an access at an offset and at a scaled index, and the number of its bytes. -/
structure AccessForm where
  offset : String
  scaled : String
  size : Nat
deriving DecidableEq

def accessForms : List AccessForm :=
  [⟨"lb", "lbx", 1⟩, ⟨"lbu", "lbux", 1⟩, ⟨"lh", "lhx", 2⟩, ⟨"lhu", "lhux", 2⟩, ⟨"lw", "lwx", 4⟩,
    ⟨"lwu", "lwux", 4⟩, ⟨"ld", "ldx", 8⟩, ⟨"sb", "sbx", 1⟩, ⟨"sh", "shx", 2⟩, ⟨"sw", "swx", 4⟩,
    ⟨"sd", "sdx", 8⟩, ⟨"vld", "vldx", 32⟩, ⟨"vst", "vstx", 32⟩]

/-! ### Immediates -/

/-- A field of fifteen bits as an immediate with or without a sign. -/
def fieldValue (signed : Bool) (field : Nat) : Int :=
  if signed = true ∧ 2 ^ 14 ≤ field then (field : Int) - 2 ^ 15 else field

/-- The mnemonic has a short immediate, with or without a sign. -/
def TakesShort (m : Mnemonic) (signed : Bool) : Prop :=
  m.format = .i ∧ decide (m.imm = .signed ∨ m.imm = .branch) = signed

instance (m : Mnemonic) (signed : Bool) : Decidable (TakesShort m signed) :=
  inferInstanceAs (Decidable (m.format = .i ∧ decide (m.imm = .signed ∨ m.imm = .branch) = signed))

theorem immediateForms_takeShort : ∀ form ∈ immediateForms, ∀ m ∈ Mnemonic.standard,
    m.name = Text.ofString form.immediate → TakesShort m form.signed := by
  decide +kernel

theorem accessForms_takeShort : ∀ form ∈ accessForms, ∀ m ∈ Mnemonic.standard,
    m.name = Text.ofString form.offset → TakesShort m true := by
  decide +kernel

/-- The immediate of a word is the field above its registers, extended as the mnemonic says. -/
theorem imm_of_decode {word : Word} {x : Instruction}
    (hdecode : Instruction.decode Table.standard word = .ok x) {name : String} {signed : Bool}
    (hshort : ∀ m ∈ Mnemonic.standard, m.name = Text.ofString name → TakesShort m signed)
    (hname : x.mnemonic.name = Text.ofString name) :
    x.imm.toInt = fieldValue signed (word.toNat / 2 ^ 17 % 2 ^ 15) := by
  obtain ⟨m, hm, -, -, rfl⟩ := Instruction.decode_eq_ok_iff.1 hdecode
  rw [Word.unpack_mnemonic] at hname
  obtain ⟨hformat, rfl⟩ := hshort m hm hname
  have hfield : word.immI.toNat < 2 ^ 15 := Instruction.immI_lt word
  have himm : (word.unpack m).imm = Instruction.extendImmI m.imm word.immI := by
    simp only [Word.unpack, hformat]
  rw [himm, Instruction.toInt_extendImmI hfield, ← Word.toNat_immI, fieldValue]
  simp only [decide_eq_true_eq]

/-! ### Results -/

variable {σ : Type} [FileSystem σ]

/-- Two actions on a register and a value: one takes the value from the instruction and the other from a
    register. -/
theorem immediate_form_agrees {m m' : Machine σ} {x y : Instruction} {immediate register : String}
    {f : UInt64 → UInt64 → UInt64} (h : m.ComesTo immediate x) (h' : m'.ComesTo register y)
    (himmediate : Action.all.lookup (Text.ofString immediate) = some (.computeImmediate f))
    (hregister : Action.all.lookup (Text.ofString register) = some (.compute f))
    (hbase : m'.get y.rs = m.get x.rs) (hoperand : m'.get y.rt = x.imm.toUInt64) :
    ∃ value, m.Leaves (m.onward.set x.rt value) m.memory ∧
      m'.Leaves (m'.onward.set y.rd value) m'.memory := by
  refine ⟨f (m.get x.rs) x.imm.toUInt64, h.leaves_set himmediate fun log => rfl, ?_⟩
  rw [← hbase, ← hoperand]
  exact h'.leaves_set hregister fun log => rfl

/-- Each immediate form has the function of its register form for its action. -/
theorem immediateForms_action : ∀ form ∈ immediateForms, ∃ f,
    Action.all.lookup (Text.ofString form.immediate) = some (.computeImmediate f) ∧
      Action.all.lookup (Text.ofString form.register) = some (.compute f) := by
  intro form hform
  simp only [immediateForms, List.mem_cons, List.not_mem_nil, or_false] at hform
  rcases hform with rfl | rfl | rfl | rfl | rfl | rfl | rfl | rfl | rfl | rfl | rfl | rfl | rfl | rfl |
    rfl | rfl | rfl <;> exact ⟨_, rfl, rfl⟩

/-! ### Accesses -/

/-- A load or a store, in whatever form. -/
inductive Transfer where
  | load (width : Nat) (signed : Bool)
  | store (width : Nat)
  | loadLanes
  | storeLanes

namespace Transfer

def action (form : Addressing) : Transfer → Action
  | load width signed => .load form width signed
  | store width => .store form width
  | loadLanes => .loadLanes form
  | storeLanes => .storeLanes form

/-- The number of its bytes. -/
def size : Transfer → Nat
  | load width _ => width
  | store width => width
  | loadLanes => Lanes.byteCount
  | storeLanes => Lanes.byteCount

end Transfer

/-- The two forms are of the same access. -/
theorem accessForms_action : ∀ form ∈ accessForms, ∃ transfer : Transfer, transfer.size = form.size ∧
    Action.all.lookup (Text.ofString form.offset) = some (transfer.action .offset) ∧
      Action.all.lookup (Text.ofString form.scaled) = some (transfer.action .scaled) := by
  intro form hform
  simp only [accessForms, List.mem_cons, List.not_mem_nil, or_false] at hform
  rcases hform with rfl | rfl | rfl | rfl | rfl | rfl | rfl | rfl | rfl | rfl | rfl | rfl | rfl
  · exact ⟨.load 1 true, rfl, rfl, rfl⟩
  · exact ⟨.load 1 false, rfl, rfl, rfl⟩
  · exact ⟨.load 2 true, rfl, rfl, rfl⟩
  · exact ⟨.load 2 false, rfl, rfl, rfl⟩
  · exact ⟨.load 4 true, rfl, rfl, rfl⟩
  · exact ⟨.load 4 false, rfl, rfl, rfl⟩
  · exact ⟨.load 8 false, rfl, rfl, rfl⟩
  · exact ⟨.store 1, rfl, rfl, rfl⟩
  · exact ⟨.store 2, rfl, rfl, rfl⟩
  · exact ⟨.store 4, rfl, rfl, rfl⟩
  · exact ⟨.store 8, rfl, rfl, rfl⟩
  · exact ⟨.loadLanes, rfl, rfl, rfl⟩
  · exact ⟨.storeLanes, rfl, rfl, rfl⟩

/-- An access looks neither at the program counter nor at the log. -/
theorem perform_elsewhere (transfer : Transfer) (form : Addressing) (m : Machine σ) (pc place : UInt64)
    (log : Array Event) (x : Instruction) :
    (m.elsewhere pc log).perform place x (transfer.action form) =
      ⟨(m.perform place x (transfer.action form)).machine.elsewhere pc log,
        (m.perform place x (transfer.action form)).error⟩ := by
  cases transfer with
  | load width signed =>
      simp only [Transfer.action, perform, load, addressOf_elsewhere, memory_elsewhere]
      cases m.memory.loadNumber (m.addressOf form width x) width with
      | error e => rfl
      | ok value => simp only [done, set_elsewhere]
  | store width =>
      simp only [Transfer.action, perform, store, addressOf_elsewhere, get_elsewhere, storeBytes_elsewhere]
  | loadLanes =>
      simp only [Transfer.action, perform, loadLanes, addressOf_elsewhere, memory_elsewhere]
      cases m.memory.load (m.addressOf form Lanes.byteCount x) Lanes.byteCount with
      | error e => rfl
      | ok bytes => rfl
  | storeLanes =>
      simp only [Transfer.action, perform, storeLanes, addressOf_elsewhere, vector_elsewhere,
        storeBytes_elsewhere]

/-- An access depends on its instruction by the address and the register only. -/
theorem perform_congr (transfer : Transfer) (m : Machine σ) {form other : Addressing} {x y : Instruction}
    (haddress : m.addressOf other transfer.size y = m.addressOf form transfer.size x)
    (hmoved : movedRegister other y = movedRegister form x) (pc place : UInt64) :
    m.perform pc y (transfer.action other) = m.perform place x (transfer.action form) := by
  cases transfer <;> simp only [Transfer.size] at haddress <;>
    simp only [Transfer.action, perform, load, store, loadLanes, storeLanes, haddress, hmoved]

/-- A clock that comes to an access does the same at any place, the program counter and the log apart. -/
theorem ComesTo.clock_access {m : Machine σ} {p : UInt64} {name : String} {x : Instruction}
    (h : (m.goTo p).ComesTo name x) {transfer : Transfer} {form : Addressing}
    (haction : Action.all.lookup (Text.ofString name) = some (transfer.action form)) :
    ∃ log, (m.goTo p).clock =
      ⟨(m.perform p x (transfer.action form)).machine.tally.elsewhere (p + 4) log,
        (m.perform p x (transfer.action form)).error⟩ := by
  obtain ⟨log, hclock⟩ := h.clock_eq haction
  have hplace : (m.goTo p).elsewhere ((m.goTo p).registers.pc + 4) log = m.elsewhere (p + 4) log := rfl
  refine ⟨log, ?_⟩
  rw [hclock, hplace, perform_elsewhere]
  rfl

/-- The two forms of every operation agree. An instruction with an immediate, which is the field of its
    word above the registers with its sign or without one, gives the value that the register form gives for
    the same register and a second one that holds the immediate, and neither changes anything else. An
    access at an offset ends as the scaled form does for an index that times the size is the offset, from
    the same state: with the same error or none, and in the same state, the program counter and the log
    apart. -/
theorem forms_agree :
    (∀ form ∈ immediateForms, ∀ (m m' : Machine σ) (x y : Instruction),
      m.ComesTo form.immediate x → m'.ComesTo form.register y → m'.get y.rs = m.get x.rs →
      m'.get y.rt = x.imm.toUInt64 →
      ∃ value, m.Leaves (m.onward.set x.rt value) m.memory ∧
        m'.Leaves (m'.onward.set y.rd value) m'.memory) ∧
    (∀ form ∈ immediateForms, ∀ word x, Instruction.decode Table.standard word = .ok x →
      x.mnemonic.name = Text.ofString form.immediate →
      x.imm.toInt = fieldValue form.signed (word.toNat / 2 ^ 17 % 2 ^ 15)) ∧
    (∀ form ∈ accessForms, ∀ (m : Machine σ) (p q : UInt64) (x y : Instruction),
      (m.goTo p).ComesTo form.offset x → (m.goTo q).ComesTo form.scaled y → m.get y.rs = m.get x.rs →
      m.get y.rt * UInt64.ofNat form.size = x.imm.toUInt64 → y.rd = x.rt →
      ∃ (after : Machine σ) (error : Option Error) (log log' : Array Event),
        (m.goTo p).clock = ⟨after.elsewhere (p + 4) log, error⟩ ∧
        (m.goTo q).clock = ⟨after.elsewhere (q + 4) log', error⟩) ∧
    ∀ form ∈ accessForms, ∀ word x, Instruction.decode Table.standard word = .ok x →
      x.mnemonic.name = Text.ofString form.offset →
      x.imm.toInt = fieldValue true (word.toNat / 2 ^ 17 % 2 ^ 15) := by
  refine ⟨?_, ?_, ?_, ?_⟩
  · intro form hform m m' x y h h' hbase hoperand
    obtain ⟨f, himmediate, hregister⟩ := immediateForms_action form hform
    exact immediate_form_agrees h h' himmediate hregister hbase hoperand
  · intro form hform word x hdecode hname
    exact imm_of_decode hdecode (immediateForms_takeShort form hform) hname
  · intro form hform m p q x y h h' hbase hindex hmoved
    obtain ⟨transfer, hsize, hoffset, hscaled⟩ := accessForms_action form hform
    obtain ⟨log, hclock⟩ := h.clock_access hoffset
    obtain ⟨log', hclock'⟩ := h'.clock_access hscaled
    have haddress : m.addressOf .scaled transfer.size y = m.addressOf .offset transfer.size x := by
      simp only [addressOf, hbase, hsize, hindex]
    rw [perform_congr transfer m haddress hmoved q p] at hclock'
    exact ⟨_, _, log, log', hclock, hclock'⟩
  · intro form hform word x hdecode hname
    exact imm_of_decode hdecode (accessForms_takeShort form hform) hname

/-- A machine with a shift by a hundred and a load from four bytes below an address, each in both forms. The
    index of the load wraps around when it is scaled. -/
def bothForms : Machine Disk where
  files := Files.fresh {} {}
  memory := { regions := [Region.make (Text.ofString "text") Segment.textBase 16 Access.rx
    (Bytes.ofList ([Word.ofI 0x13 3 1 100, Word.ofR 0 0x008 4 1 2, Word.ofI 0x34 3 1 (-4),
      Word.ofR 0 0x054 3 1 5].flatMap fun w => Bytes.ofNat 4 w.toNat))] }
  registers := (((({} : Registers).set 1 (Segment.textBase + 4)).set 2 100).set 5 0x3fffffffffffffff)

theorem forms_agree_bothForms :
    (bothForms.goTo Segment.textBase).clock.machine.get 3 = (Segment.textBase + 4) <<< 36 ∧
      (bothForms.goTo (Segment.textBase + 4)).clock.machine.get 4 = (Segment.textBase + 4) <<< 36 ∧
      (bothForms.goTo (Segment.textBase + 8)).clock.error =
        (bothForms.goTo (Segment.textBase + 12)).clock.error ∧
      (bothForms.goTo (Segment.textBase + 8)).clock.machine.get 3 =
        (bothForms.goTo (Segment.textBase + 12)).clock.machine.get 3 := by
  have hshort : (bothForms.goTo Segment.textBase).ComesTo "slli"
      { mnemonic := Mnemonic.short "slli" 0x13 .shift64 [.rt, .rs, .imm], rt := 3, rs := 1, imm := 100 } :=
    ⟨⟨rfl, rfl⟩, ⟨_, rfl, Word.ofI 0x13 3 1 100, rfl⟩, rfl⟩
  have hlong : (bothForms.goTo (Segment.textBase + 4)).ComesTo "sll"
      { mnemonic := Mnemonic.scalar "sll" 0x008 [.rd, .rs, .rt], rd := 4, rs := 1, rt := 2 } :=
    ⟨⟨rfl, rfl⟩, ⟨_, rfl, Word.ofR 0 0x008 4 1 2, rfl⟩, rfl⟩
  have hoffset : (bothForms.goTo (Segment.textBase + 8)).ComesTo "lw"
      { mnemonic := Mnemonic.short "lw" 0x34 .signed [.rt, .mem], rt := 3, rs := 1, imm := -4 } :=
    ⟨⟨rfl, rfl⟩, ⟨_, rfl, Word.ofI 0x34 3 1 (-4), rfl⟩, rfl⟩
  have hscaled : (bothForms.goTo (Segment.textBase + 12)).ComesTo "lwx"
      { mnemonic := Mnemonic.scalar "lwx" 0x054 [.rd, .index], rd := 3, rs := 1, rt := 5 } :=
    ⟨⟨rfl, rfl⟩, ⟨_, rfl, Word.ofR 0 0x054 3 1 5, rfl⟩, rfl⟩
  obtain ⟨himmediates, -, haccesses, -⟩ := forms_agree (σ := Disk)
  obtain ⟨value, ⟨log, hclock⟩, ⟨log', hclock'⟩⟩ := himmediates ⟨"slli", "sll", false⟩ (by decide)
    _ _ _ _ hshort hlong rfl rfl
  obtain ⟨after, error, _, _, hload, hload'⟩ := haccesses ⟨"lw", "lwx", 4⟩ (by decide)
    bothForms (Segment.textBase + 8) (Segment.textBase + 12) _ _ hoffset hscaled rfl rfl rfl
  have hvalue : (bothForms.goTo Segment.textBase).clock.machine.get 3 = (Segment.textBase + 4) <<< 36 := rfl
  have hsame : value = (Segment.textBase + 4) <<< 36 := by
    rw [← hvalue, hclock]
    exact (Registers.get_set_self _ (by decide) _).symm
  refine ⟨hvalue, ?_, ?_, ?_⟩
  · rw [hclock', ← hsame]
    exact Registers.get_set_self _ (by decide) _
  · rw [hload, hload']
  · rw [hload, hload', get_elsewhere, get_elsewhere]

end Machine

end VectorRisc
