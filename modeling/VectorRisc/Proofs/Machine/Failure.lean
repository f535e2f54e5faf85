/-
Module: VectorRisc.Proofs.Machine.Failure
Layer: Proofs
Purpose: A clock that fails is atomic. Before execution nothing changes at all; an instruction that fails
  is passed and counted, and leaves every other register and all of memory alone. With the standard tables
  only five kinds of error occur, since every region has storage for all its addresses and every real
  mnemonic has an action.
Imports: Mathlib.Tactic, VectorRisc.Proofs.Instruction.Code, VectorRisc.Proofs.Machine.Run,
  VectorRisc.Proofs.Memory.Contents
Trusted boundary: none
Main exports: Memory.Limited, Memory.Limited.refuses, Machine.Sane, Machine.Stalled, Machine.Spared,
  Machine.clock_failed, Machine.clock_causes, Machine.clock_atomic
Open obligations: none
-/
import Mathlib.Tactic
import VectorRisc.Proofs.Instruction.Code
import VectorRisc.Proofs.Machine.Run
import VectorRisc.Proofs.Memory.Contents

namespace VectorRisc

/-! ### Storage for every address -/

namespace Region

@[simp] theorem limit_put (r : Region) (addr : UInt64) (bytes : List UInt8) :
    (r.put addr bytes).buffer.limit = r.buffer.limit :=
  Buffer.limit_extend _ _

/-- Storage that may grow to the size of its region has room for every write that the region allows. -/
theorem writeFault?_of_limit {r : Region} (hlimit : r.buffer.limit = r.size) {addr : UInt64}
    (haddr : r.contains addr = true) (n : Nat) :
    r.writeFault? addr n = r.fault? addr n Access.forWrite := by
  cases hfault : r.fault? addr n Access.forWrite with
  | some e => simp [writeFault?, hfault]
  | none =>
      obtain ⟨-, -, hwrap, hfirst, hlast⟩ := fault?_eq_none_iff.1 hfault
      have hsize := toNat_size haddr
      have hbound := r.size.toNat_lt
      have hoffset := UInt64.toNat_sub_of_le _ _ hfirst
      rw [UInt64.le_iff_toNat_le] at hwrap hfirst hlast
      have hend := (addr + UInt64.ofNat n - 1).toNat_lt
      -- the end of the write in storage is the end of the access in the region
      have hstop : (addr - r.first + UInt64.ofNat n).toNat =
          (addr + UInt64.ofNat n - 1).toNat - r.first.toNat + 1 := by
        simp only [UInt64.toNat_add, UInt64.toNat_sub, UInt64.toNat_ofNat', UInt64.toNat_one] at *
        omega
      have hroom : ¬r.size < addr - r.first + UInt64.ofNat n := by
        rw [UInt64.lt_iff_toNat_lt, hstop]
        omega
      have hahead : ¬addr - r.first + UInt64.ofNat n < addr - r.first := by
        rw [UInt64.lt_iff_toNat_lt, hstop]
        omega
      simp [writeFault?, hfault, Buffer.writeFault?, Buffer.growFault?, hlimit, hroom, hahead]

end Region

namespace Memory

/-- The storage of every region may grow to the size of the region. -/
def Limited (m : Memory) : Prop := ∀ r ∈ m.regions, r.buffer.limit = r.size

variable {m : Memory}

theorem Limited.put (h : m.Limited) (addr : UInt64) (bytes : List UInt8) :
    (m.put addr bytes).Limited := by
  intro r hr
  rcases mem_modifyFirst hr with hold | ⟨before, hfound, rfl⟩
  · exact h r hold
  · exact (Region.limit_put before addr bytes).trans (h before (List.mem_of_find?_eq_some hfound))

theorem Limited.shift (h : m.Limited) (delta : Int64) : (m.shift delta).Limited := by
  rw [Memory.shift]
  split
  · exact h
  · rename_i i hheap
    split
    · exact h
    · intro r hr
      obtain ⟨j, hj, rfl⟩ := List.getElem_of_mem hr
      rw [List.getElem_modify]
      split
      · exact limit_resize _ _
      · exact h _ (List.getElem_mem _)

/-- Whatever an instruction does to memory keeps storage for every address. -/
theorem Limited.change (h : m.Limited) {after : Memory} (hchange : m.Change after) : after.Limited := by
  cases hchange with
  | same => exact h
  | stored addr bytes _ => exact h.put addr bytes
  | moved delta _ => exact h.shift delta

/-- A memory that is laid out has storage for every address. -/
theorem limited_built (placements : List Placement) :
    (placements.foldl (attempt place) {} : Memory).Limited :=
  fun r hr => ((shows_built placements).sound.storage r hr).limit

/-- Such a memory refuses an access with a fault and with nothing else. -/
theorem Limited.refuses (h : m.Limited) {cause : Error} (hrefuses : m.Refuses cause) :
    ∃ addr n wanted, cause = .fault addr n wanted := by
  have hregion : ∀ {r : Region} {addr : UInt64} {n : Nat} {wanted : Access},
      r.fault? addr n wanted = some cause → ∃ addr n wanted, cause = .fault addr n wanted := by
    intro r addr n wanted hfault
    have hrefused : r.fault? addr n wanted ≠ none := by simp [hfault]
    have htold := Region.fault?_eq_some_of_ne_none hrefused
    exact ⟨addr, n, wanted, Option.some.inj (hfault.symm.trans htold)⟩
  cases hrefuses with
  | access addr n wanted hfault =>
      rw [fault?] at hfault
      split at hfault
      · exact ⟨addr, n, wanted, (Option.some.inj hfault).symm⟩
      · exact hregion hfault
  | store addr n hfault =>
      rw [storeFault?] at hfault
      split at hfault
      · exact ⟨addr, n, Access.forWrite, (Option.some.inj hfault).symm⟩
      · rename_i r hfound
        rw [Region.writeFault?_of_limit (h r (mem_of_region? hfound)) (contains_of_region? hfound)] at hfault
        exact hregion hfault

end Memory

/-! ### The actions of the instruction set -/

/-- The name of the instruction that moves to or from a kernel register. -/
def Action.kernelMove? : Action → Option Text
  | .fromKernel => some (Text.ofString "mfk")
  | .toKernel => some (Text.ofString "mtk")
  | _ => none

theorem Action.kernelMove?_all : ∀ entry ∈ Action.all, ∀ name ∈ entry.2.kernelMove?, entry.1 = name := by
  decide +kernel

/-- Each of the two actions on kernel registers belongs to one instruction. -/
theorem Action.eq_of_kernelMove? {name moves : Text} {action : Action}
    (h : Action.all.lookup name = some action) (hmoves : action.kernelMove? = some moves) :
    name = moves :=
  Action.kernelMove?_all (name, action) (Action.mem_all h) moves hmoves

/-- Every real mnemonic has an action. -/
theorem Mnemonic.standard_action : ∀ m ∈ Mnemonic.standard, m.isPseudo = false →
    (Action.all.lookup m.name).isSome = true := by
  decide +kernel

theorem Instruction.error_of_decode {tb : Table} {w : Word} {cause : Instruction.Error}
    (h : decode tb w = .error cause) : cause = .badWord w := by
  simp only [decode] at h
  split at h
  · exact (Except.error.inj h).symm
  · split at h
    · exact (Except.error.inj h).symm
    · split at h
      case h_4 => split at h <;> cases h
      all_goals cases h

namespace Machine

variable {σ : Type}

/-! ### Failures -/

/-- The machine cannot reach execution, for a cause: it has halted, there is no word to fetch, or the word
    is no instruction. -/
inductive Stalled (m : Machine σ) : Error → Prop where
  | halted (h : m.halted = true) : Stalled m .halted
  | fetch {cause : Memory.Error} (hrunning : m.halted = false)
      (h : m.memory.fetch m.registers.pc = .error cause) : Stalled m (.memory cause)
  | decode {word : Word} {cause : Instruction.Error} (hrunning : m.halted = false)
      (hfetch : m.memory.fetch m.registers.pc = .ok word)
      (h : Instruction.decode Table.standard word = .error cause) : Stalled m (.instruction cause)

/-- What an instruction that fails leaves: it has been passed and counted, and that is all. -/
structure Spared (m after : Machine σ) : Prop where
  pc : after.registers.pc = m.registers.pc + 4
  clocks : after.clocks = m.clocks + 1
  time : ∃ time, m.registers.kernel? Register.time = some time ∧
    after.registers.kernel? Register.time = some (time + 1)
  kernels : ∀ r, r ≠ Register.time → after.registers.kernel? r = m.registers.kernel? r
  scalars : after.registers.scalars = m.registers.scalars
  hi : after.registers.hi = m.registers.hi
  lo : after.registers.lo = m.registers.lo
  vectors : after.registers.vectors = m.registers.vectors
  memory : after.memory = m.memory
  halted : after.halted = m.halted
  exitCode : after.exitCode = m.exitCode

/-- What holds in every state of a run with the standard tables. -/
structure Sane (m : Machine σ) : Prop where
  standard : m.Standard
  limited : m.memory.Limited
  timed : m.Timed

/-- With the standard tables, an instruction is missing only because it cannot be fetched or decoded. -/
theorem stalled_of_instructionAt {m : Machine σ} (h : m.Standard) (hrunning : m.halted = false)
    {cause : Error} (hmissing : m.instructionAt m.registers.pc = .error cause) : m.Stalled cause := by
  rw [instructionAt, h.table, h.actions] at hmissing
  split at hmissing
  · rename_i fault hfetch
    cases hmissing
    exact .fetch hrunning hfetch
  · rename_i word hfetch
    split at hmissing
    · rename_i fault hdecode
      cases hmissing
      exact .decode hrunning hfetch hdecode
    · rename_i x hdecode
      split at hmissing
      · rename_i hnone
        obtain ⟨mnemonic, hstandard, hreal, -, rfl⟩ := Instruction.decode_eq_ok_iff.1 hdecode
        have haction := Mnemonic.standard_action mnemonic hstandard hreal
        rw [Word.unpack_mnemonic] at hnone
        simp [hnone] at haction
      · cases hmissing

/-- An instruction that was refused has been passed and counted. -/
theorem tally_spared {m : Machine σ} (h : m.Timed) (word : Word) (x : Instruction) (files : Files σ)
    (log : Array Event) : m.Spared (tally { m.ready word x with files := files, log := log }) := by
  obtain ⟨otherFiles, otherLog, hready⟩ := ready_eq m word x
  rw [hready]
  have htime := h.time
  refine ⟨rfl, rfl, ⟨m.clocks, htime, ?_⟩, ?_, rfl, rfl, rfl, rfl, rfl, rfl, rfl⟩
  · exact tally_time _
  · intro r hr
    have hother : Register.time.toNat ≠ r.toNat := fun hsame => hr (UInt8.toNat_inj.1 hsame.symm)
    simp only [tally, Registers.kernel?, Registers.setKernel]
    exact Vector.getElem?_setIfInBounds_ne hother

variable [FileSystem σ]

theorem Sane.clock {m : Machine σ} (h : m.Sane) : m.clock.machine.Sane :=
  ⟨h.standard.change (clock_change m), h.limited.change (clock_change m).memory, clock_timed h.timed⟩

theorem clock_of_stalled {m : Machine σ} (h : m.Standard) {cause : Error} (hstalled : m.Stalled cause) :
    m.clock = ⟨m, some cause⟩ := by
  cases hstalled with
  | halted hhalted => exact clock_of_halted hhalted
  | fetch hrunning hfetch => simp [Machine.clock, hrunning, instructionAt, hfetch, refuse]
  | decode hrunning hfetch hdecode =>
      simp [Machine.clock, hrunning, instructionAt, hfetch, h.table, hdecode, refuse]

/-- A clock that fails has stalled, or has met an error that its action can meet and spared the rest. -/
theorem clock_failed {m : Machine σ} (h : m.Sane) {cause : Error} (herror : m.clock.error = some cause) :
    m.Stalled cause ∨ (m.Spared m.clock.machine ∧ ∃ word x action,
      m.instructionAt m.registers.pc = .ok (word, x, action) ∧ Blame m.memory x action cause) := by
  rcases clock_cases m with ⟨-, -, stopped, hstopped, hwhy⟩ |
    ⟨-, -, word, x, action, hfound, hsame, hnext⟩
  · obtain rfl := Option.some.inj (herror.symm.trans hstopped)
    rcases hwhy with ⟨hhalted, rfl⟩ | ⟨hrunning, hmissing⟩
    · exact .inl (.halted hhalted)
    · exact .inl (stalled_of_instructionAt h.standard hrunning hmissing)
  · right
    obtain ⟨-, hdecode, -⟩ := instructionAt_eq_ok hfound
    rw [hsame] at herror
    cases perform_ended (m.ready word x) m.registers.pc (Instruction.narrow_of_decode hdecode) action with
    | done hnone => simp [hnone] at herror
    | refused blamed hblamed hblame hkept =>
        obtain rfl := Option.some.inj (herror.symm.trans hblamed)
        obtain ⟨files, log, hkept⟩ := hkept
        obtain ⟨_, _, hready⟩ := ready_eq m word x
        refine ⟨?_, word, x, action, hfound, ?_⟩
        · rw [hnext, hkept]
          exact tally_spared h.timed word x files log
        · rw [hready] at hblame
          exact hblame

/-- The errors that a clock of such a machine can meet. -/
theorem clock_causes {m : Machine σ} (h : m.Sane) {cause : Error} (herror : m.clock.error = some cause) :
    cause = .halted ∨ (∃ addr size wanted, cause = .memory (.fault addr size wanted)) ∨
      (∃ word, cause = .instruction (.badWord word)) ∨ (∃ k, cause = .kernelRegister k) ∨
      ∃ number, cause = .unknownService number := by
  have hfault : ∀ {refused : Memory.Error}, m.memory.Refuses refused →
      ∃ addr size wanted, Error.memory refused = .memory (.fault addr size wanted) := by
    intro refused hrefuses
    obtain ⟨addr, size, wanted, rfl⟩ := h.limited.refuses hrefuses
    exact ⟨addr, size, wanted, rfl⟩
  rcases clock_failed h herror with hstalled | ⟨-, word, x, action, -, hblame⟩
  · cases hstalled with
    | halted _ => exact .inl rfl
    | fetch _ hfetch =>
        exact .inr (.inl (hfault (Memory.refuses_of_read (map_eq_error hfetch))))
    | decode _ _ hdecode =>
        obtain rfl := Instruction.error_of_decode hdecode
        exact .inr (.inr (.inl ⟨_, rfl⟩))
  · cases hblame with
    | memory hrefuses => exact .inr (.inl (hfault hrefuses))
    | fromKernel _ => exact .inr (.inr (.inr (.inl ⟨_, rfl⟩)))
    | toKernel _ => exact .inr (.inr (.inr (.inl ⟨_, rfl⟩)))
    | unknownService number => exact .inr (.inr (.inr (.inr ⟨number, rfl⟩)))

/-- The instruction is a move to or from a kernel register beyond the last. -/
def MovesBeyond (x : Instruction) (k : UInt8) : Prop :=
  (x.mnemonic.name = Text.ofString "mfk" ∧ x.rt = k ∨ x.mnemonic.name = Text.ofString "mtk" ∧ x.rd = k) ∧
    5 < k

/-- The kernel register is at fault exactly if the instruction moves one beyond the last. -/
theorem clock_kernelRegister_iff {m : Machine σ} (h : m.Sane) (k : UInt8) :
    m.clock.error = some (.kernelRegister k) ↔ m.halted = false ∧ ∃ word x,
      m.memory.fetch m.registers.pc = .ok word ∧ Instruction.decode Table.standard word = .ok x ∧
        MovesBeyond x k := by
  constructor
  · intro herror
    rcases clock_failed h herror with hstalled | ⟨-, word, x, action, hfound, hblame⟩
    · cases hstalled
    · obtain ⟨hfetch, hdecode, haction⟩ := instructionAt_eq_ok hfound
      rw [h.standard.table] at hdecode
      rw [h.standard.actions] at haction
      have hrunning : m.halted = false := by
        cases hhalted : m.halted with
        | false => rfl
        | true => simp [clock_of_halted hhalted] at herror
      refine ⟨hrunning, word, x, hfetch, hdecode, ?_⟩
      cases hblame with
      | fromKernel hbeyond => exact ⟨.inl ⟨Action.eq_of_kernelMove? haction rfl, rfl⟩, hbeyond⟩
      | toKernel hbeyond => exact ⟨.inr ⟨Action.eq_of_kernelMove? haction rfl, rfl⟩, hbeyond⟩
  · rintro ⟨hrunning, word, x, hfetch, hdecode, ⟨hname, rfl⟩ | ⟨hname, rfl⟩, hbeyond⟩
    · have haction : Action.all.lookup x.mnemonic.name = some .fromKernel := by
        rw [hname]
        rfl
      obtain ⟨_, hclock⟩ := (h.standard.faces hrunning hfetch hdecode haction).clock_eq
      simp only [hclock, execute, perform, Machine.fromKernel, kernel?_eq_none_iff.2 hbeyond]
      rfl
    · have haction : Action.all.lookup x.mnemonic.name = some .toKernel := by
        rw [hname]
        rfl
      obtain ⟨_, hclock⟩ := (h.standard.faces hrunning hfetch hdecode haction).clock_eq
      simp only [hclock, execute, perform, Machine.toKernel, kernel?_eq_none_iff.2 hbeyond]
      rfl

/-- A clock that fails is atomic. In every state that clocks reach from a reset over a memory that was
    laid out, a clock that stalls changes nothing at all, and an instruction that fails is passed and
    counted and spares everything else. No other errors occur than these: the machine has halted, an
    access faults, a word is no instruction, a kernel register is beyond the last (which only the moves to
    and from kernel registers tell, and always do), or a service is unknown. -/
theorem clock_atomic (placements : List Memory.Placement) (files : Files σ) (entry : UInt64)
    (tracing : Tracing) (n : Nat) :
    let start : Machine σ :=
      { memory := placements.foldl (attempt Memory.place) {}, files, entry, tracing }
    let m := start.reset.clocked n
    (∀ cause, m.Stalled cause → m.clock = ⟨m, some cause⟩) ∧
    (∀ cause, m.clock.error = some cause → ¬m.Stalled cause → m.Spared m.clock.machine) ∧
    (∀ cause, m.clock.error = some cause →
      cause = .halted ∨ (∃ addr size wanted, cause = .memory (.fault addr size wanted)) ∨
        (∃ word, cause = .instruction (.badWord word)) ∨ (∃ k, cause = .kernelRegister k) ∨
        ∃ number, cause = .unknownService number) ∧
    ∀ k, m.clock.error = some (.kernelRegister k) ↔ m.halted = false ∧ ∃ word x,
      m.memory.fetch m.registers.pc = .ok word ∧ Instruction.decode Table.standard word = .ok x ∧
        MovesBeyond x k := by
  intro start m
  have hstart : start.reset.Sane := by
    obtain ⟨files, log, hreset⟩ := reset_eq start
    refine ⟨?_, ?_, reset_timed start⟩
    · rw [hreset]
      exact ⟨rfl, rfl⟩
    · rw [hreset]
      exact Memory.limited_built placements
  have hsane : m.Sane := clocked_induction (fun _ => Sane.clock) hstart n
  refine ⟨fun _ => clock_of_stalled hsane.standard, ?_, fun _ => clock_causes hsane,
    clock_kernelRegister_iff hsane⟩
  intro cause herror hreached
  rcases clock_failed hsane herror with hstalled | ⟨hspared, -⟩
  · exact absurd hstalled hreached
  · exact hspared

end Machine

end VectorRisc
