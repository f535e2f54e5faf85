/-
Module: VectorRisc.Proofs.Machine.Stack
Layer: Proofs
Purpose: Pushing and popping registers. What is pushed in an order is popped in the reverse order, whatever
  the registers hold in between, and nothing is written but the bytes below the stack pointer.
Imports: Mathlib.Tactic, VectorRisc.Proofs.Instruction.RoundTrip, VectorRisc.Proofs.Machine.Straight,
  VectorRisc.Proofs.Memory.Built, VectorRisc.Proofs.Memory.Numbers
Trusted boundary: none
Main exports: Assembler.codesOf_pushes, Assembler.codesOf_pops, Machine.PushedOne, Machine.Pushed,
  Machine.runs_pushes, Machine.PoppedOne, Machine.Popped, Machine.runs_pops, Machine.pushes_pops_restore
Open obligations: none
-/
import Mathlib.Tactic
import VectorRisc.Proofs.Instruction.RoundTrip
import VectorRisc.Proofs.Machine.Straight
import VectorRisc.Proofs.Memory.Built
import VectorRisc.Proofs.Memory.Numbers

namespace VectorRisc

/-! ### The words of pushes and pops -/

/-- The word of an instruction with a short immediate. -/
def Instruction.shortWord (x : Instruction) : Word :=
  Word.ofI x.mnemonic.opcode x.rt x.rs x.imm.toUInt64.toUInt16

/-- An instruction with a short immediate that fits has its word, and the word is that instruction. -/
theorem Instruction.encode_shortWord {m : Mnemonic} (hm : m ∈ Mnemonic.standard) (hformat : m.format = .i)
    {rt rs : UInt8} (hrt : rt < 32) (hrs : rs < 32) {imm : Int64}
    (hcheck : check { mnemonic := m, rt := rt, rs := rs, imm := imm } = .ok ()) :
    encode { mnemonic := m, rt := rt, rs := rs, imm := imm } =
        .ok (shortWord { mnemonic := m, rt := rt, rs := rs, imm := imm }) ∧
      decode Table.standard (shortWord { mnemonic := m, rt := rt, rs := rs, imm := imm }) =
        .ok { mnemonic := m, rt := rt, rs := rs, imm := imm } := by
  have hreal : m.isPseudo = false := by simp [Mnemonic.isPseudo, hformat]
  have hopcode := (Mnemonic.standard_code m hm hreal).1
  have hkind : m.imm ∈ [.signed, .unsigned, .shift64, .shift32, .branch] := by
    rcases Mnemonic.standard_imm m hm hreal with ⟨hf, -⟩ | ⟨-, hkind⟩ | ⟨hf, -⟩ | ⟨hf, -⟩ | ⟨hf, -⟩
    case inr.inl => exact hkind
    all_goals
      rw [hformat] at hf
      cases hf
  have hfits := ((check_eq_ok_iff rfl).1 hcheck).2
  constructor
  · simp only [encode, hcheck, hformat, shortWord]
    rfl
  · rw [decode_of_carries hm hreal ⟨by simpa [shortWord] using hopcode, by simp [hformat], by simp [hformat]⟩]
    simp only [Word.unpack, hformat, shortWord, Word.fieldD_ofI, Word.fieldS_ofI, Word.immI_ofI,
      and_registerMask hrt, and_registerMask hrs, extendImmI_shortField hkind hfits]

namespace Assembler

open Mnemonic

/-- A register is pushed. -/
def push (r : UInt8) : Instruction := { mnemonic := expanded "push" [.rs], rs := r }

/-- A register is popped. -/
def pop (r : UInt8) : Instruction := { mnemonic := expanded "pop" [.rd], rd := r }

/-- The stack pointer goes down over a number, or up again. -/
def movePointer (distance : Int64) : Instruction :=
  { mnemonic := short "addi" 0x08 .signed [.rt, .rs, .imm], rt := Register.sp, rs := Register.sp,
    imm := distance }

/-- A register is stored where the stack pointer is. -/
def saveRegister (r : UInt8) : Instruction :=
  { mnemonic := short "sd" 0x3b .signed [.rt, .mem], rt := r, rs := Register.sp }

/-- A register is loaded from where the stack pointer is. -/
def restoreRegister (r : UInt8) : Instruction :=
  { mnemonic := short "ld" 0x36 .signed [.rt, .mem], rt := r, rs := Register.sp }

/-- The words of a push. -/
def pushWords (r : UInt8) : List Word := [(movePointer (-8)).shortWord, (saveRegister r).shortWord]

/-- The words of a pop. -/
def popWords (r : UInt8) : List Word := [(restoreRegister r).shortWord, (movePointer 8).shortWord]

theorem realInstructions_push (r : UInt8) :
    realInstructions Table.standard (push r) = .ok [movePointer (-8), saveRegister r] :=
  (realInstructions_of_steps rfl rfl).trans rfl

theorem realInstructions_pop (r : UInt8) :
    realInstructions Table.standard (pop r) = .ok [restoreRegister r, movePointer 8] :=
  (realInstructions_of_steps rfl rfl).trans rfl

theorem encode_movePointer (distance : Int64) (hcheck : Instruction.check (movePointer distance) = .ok ()) :
    (movePointer distance).encode = .ok (movePointer distance).shortWord ∧
      Instruction.decode Table.standard (movePointer distance).shortWord = .ok (movePointer distance) :=
  Instruction.encode_shortWord (by decide +kernel) rfl (by decide) (by decide) hcheck

theorem encode_saveRegister {r : UInt8} (hr : r < 32) :
    (saveRegister r).encode = .ok (saveRegister r).shortWord ∧
      Instruction.decode Table.standard (saveRegister r).shortWord = .ok (saveRegister r) :=
  Instruction.encode_shortWord (by decide +kernel) rfl hr (by decide) rfl

theorem encode_restoreRegister {r : UInt8} (hr : r < 32) :
    (restoreRegister r).encode = .ok (restoreRegister r).shortWord ∧
      Instruction.decode Table.standard (restoreRegister r).shortWord = .ok (restoreRegister r) :=
  Instruction.encode_shortWord (by decide +kernel) rfl hr (by decide) rfl

theorem codesOf_pushes {regs : List UInt8} (hregs : ∀ r ∈ regs, r < 32) :
    codesOf (regs.map push) = .ok (regs.flatMap pushWords) := by
  apply codesOf_map
  intro r hr
  have hsave := (encode_saveRegister (hregs r hr)).1
  have hlower := (encode_movePointer (-8) rfl).1
  refine ⟨_, realInstructions_push r, ?_⟩
  simp only [encodeAll, hlower, hsave, Except.map, pushWords]

theorem codesOf_pops {regs : List UInt8} (hregs : ∀ r ∈ regs, r < 32) :
    codesOf (regs.map pop) = .ok (regs.flatMap popWords) := by
  apply codesOf_map
  intro r hr
  have hrestore := (encode_restoreRegister (hregs r hr)).1
  have hraise := (encode_movePointer 8 rfl).1
  refine ⟨_, realInstructions_pop r, ?_⟩
  simp only [encodeAll, hrestore, hraise, Except.map, popWords]

end Assembler

namespace Machine

open Assembler Memory

variable {σ : Type} [FileSystem σ] {m : Machine σ} {regs : List UInt8}

/-! ### One register -/

theorem passes_movePointer (distance : Int64)
    (hcheck : Instruction.check (movePointer distance) = .ok ()) (hstandard : m.Standard)
    (hrunning : m.halted = false) :
    ∃ next, m.Passes (movePointer distance).shortWord
      (m.registers.set Register.sp (m.get Register.sp + distance.toUInt64)) m.memory next := by
  have hreads : m.Reads (movePointer distance).shortWord (movePointer distance)
      (.computeImmediate (· + ·)) :=
    ⟨hstandard, hrunning, (encode_movePointer distance hcheck).2, rfl⟩
  exact hreads.passes_computeImmediate

theorem passes_saveRegister {r : UInt8} (hr : r < 32) (hstandard : m.Standard) (hrunning : m.halted = false)
    (hsound : m.memory.Sound) (hpermits : m.memory.Permits (m.get Register.sp) 8 Access.forWrite) :
    ∃ next, m.Passes (saveRegister r).shortWord m.registers
      (m.memory.put (m.get Register.sp) (numberBytes 8 (m.get r))) next := by
  have hreads : m.Reads (saveRegister r).shortWord (saveRegister r) (.store .offset 8) :=
    ⟨hstandard, hrunning, (encode_saveRegister hr).2, rfl⟩
  have hplace : m.get (saveRegister r).rs + (saveRegister r).imm.toUInt64 = m.get Register.sp :=
    UInt64.add_zero _
  have hlength := length_numberBytes 8 (m.get r)
  have hstore : m.memory.storeFault? (m.get Register.sp) (numberBytes 8 (m.get r)).length = none := by
    rw [hsound.storeFault?_eq (by omega), fault?_eq hsound.apart (by omega), hlength, if_pos hpermits]
  obtain ⟨next, hnext⟩ := hreads.passes_store (by rwa [hplace])
  rw [hplace] at hnext
  exact ⟨next, hnext⟩

theorem passes_restoreRegister {r : UInt8} (hr : r < 32) (hstandard : m.Standard)
    (hrunning : m.halted = false) {value : UInt64} (hkeeps : m.memory.Keeps (m.get Register.sp) value)
    (hapart : Memory.Apart m.memory.regions)
    (hpermits : m.memory.Permits (m.get Register.sp) 8 Access.forRead) :
    ∃ next, m.Passes (restoreRegister r).shortWord (m.registers.set r value) m.memory next := by
  have hreads : m.Reads (restoreRegister r).shortWord (restoreRegister r) (.load .offset 8 false) :=
    ⟨hstandard, hrunning, (encode_restoreRegister hr).2, rfl⟩
  have hplace : m.get (restoreRegister r).rs + (restoreRegister r).imm.toUInt64 = m.get Register.sp :=
    UInt64.add_zero _
  apply hreads.passes_load
  rw [hplace]
  exact hkeeps.loadNumber_eq hapart hpermits

/-- Memory is the same in what can be executed but where it was written to. -/
theorem fetch_put {memory : Memory} (hsound : memory.Sound) {addr : UInt64} {bytes : List UInt8}
    (hlength : bytes.length < 2 ^ 64) (hpermits : memory.Permits addr bytes.length Access.forWrite)
    {pc : UInt64} (hapart : ∀ i < 4, ¬Within addr bytes.length (pc + UInt64.ofNat i)) :
    (memory.put addr bytes).fetch pc = memory.fetch pc := by
  rw [fetch, hsound.read_put hlength hpermits (by norm_num) hapart, fetch]

/-- A register was pushed, to where a number of others have room below it down to an address. Words that the
    next state runs are run after the push. -/
structure PushedOne (m : Machine σ) (base : UInt64) (n : Nat) (r : UInt8) (next : Machine σ) : Prop where
  standard : next.Standard
  running : next.halted = false
  registers : next.registers.Agree (m.registers.set Register.sp (base + UInt64.ofNat (8 * n)))
  memory : next.memory = m.memory.put (base + UInt64.ofNat (8 * n)) (numberBytes 8 (m.get r))
  runs : ∀ words after, next.Runs (Within base (8 * (n + 1))) words after →
    m.Runs (Within base (8 * (n + 1))) (pushWords r ++ words) after

/-- A push. The stack pointer goes down, and the register is stored where it is then. -/
theorem runs_push {r : UInt8} (hr : r < 32) (hsp : r ≠ Register.sp) (hstandard : m.Standard)
    (hrunning : m.halted = false) (hsound : m.memory.Sound) {base : UInt64} {n : Nat}
    (hopen : m.memory.Open base (8 * (n + 1)))
    (htop : base + UInt64.ofNat (8 * n) + 8 = m.get Register.sp) : ∃ next, m.PushedOne base n r next := by
  have hlength := length_numberBytes 8 (m.get r)
  have hlower : m.get Register.sp + (-8 : Int64).toUInt64 = base + UInt64.ofNat (8 * n) := by
    rw [← htop, UInt64.add_assoc]
    exact UInt64.add_zero _
  have hslot : m.memory.Open (base + UInt64.ofNat (8 * n)) 8 := hopen.inner (by omega)
  have hpermits := (hslot.permits (by norm_num)).2
  obtain ⟨lowered, hlowered⟩ := passes_movePointer (-8) rfl hstandard hrunning
  rw [hlower] at hlowered
  have hpointer : lowered.get Register.sp = base + UInt64.ofNat (8 * n) :=
    (hlowered.registers.get_eq _).trans (Registers.get_set_self m.registers (by decide) _)
  have hvalue : lowered.get r = m.get r := by
    rw [get, hlowered.registers.get_eq, Registers.get_set _ (by decide), if_neg]
    · rfl
    · rwa [Registers.place_eq_iff hr (by decide)]
  obtain ⟨next, hnext⟩ := passes_saveRegister hr hlowered.standard hlowered.running
    (by rwa [hlowered.memory]) (by rwa [hlowered.memory, hpointer])
  rw [hpointer, hvalue, hlowered.memory] at hnext
  refine ⟨next, hnext.standard, hnext.running, hnext.registers.trans hlowered.registers, hnext.memory, ?_⟩
  intro words after hruns
  refine Runs.cons hlowered (fun _ _ _ hfetch => hfetch) (Runs.cons hnext ?_ hruns)
  intro pc code hapart hfetch
  rw [hlowered.memory] at hfetch
  rw [fetch_put hsound (by omega) (by rwa [hlength]), hfetch]
  intro i hi hwithin
  rw [hlength] at hwithin
  exact hapart i hi (hwithin.inner (by omega))

namespace PushedOne

variable {base : UInt64} {n : Nat} {r : UInt8} {next : Machine σ}

theorem pointer (h : m.PushedOne base n r next) : next.get Register.sp = base + UInt64.ofNat (8 * n) :=
  (h.registers.get_eq _).trans (Registers.get_set_self m.registers (by decide) _)

/-- The other registers are as before. -/
theorem get_eq (h : m.PushedOne base n r next) {q : UInt8} (hq : q < 32) (hsp : q ≠ Register.sp) :
    next.get q = m.get q := by
  rw [get, h.registers.get_eq, Registers.get_set _ (by decide), if_neg]
  · rfl
  · rwa [Registers.place_eq_iff hq (by decide)]

theorem opens (h : m.PushedOne base n r next) (hapart : Memory.Apart m.memory.regions) {addr : UInt64}
    {size : Nat} (hopen : m.memory.Open addr size) : next.memory.Open addr size := by
  rw [h.memory]
  exact hopen.put hapart _ _

theorem permits (h : m.PushedOne base n r next) (hapart : Memory.Apart m.memory.regions) {addr : UInt64}
    {size : Nat} {wanted : Access} :
    next.memory.Permits addr size wanted ↔ m.memory.Permits addr size wanted := by
  rw [h.memory, permits_put hapart]

section Sound

variable (h : m.PushedOne base n r next) (hsound : m.memory.Sound)
  (hwrites : m.memory.Permits (base + UInt64.ofNat (8 * n)) 8 Access.forWrite)

include h hsound hwrites

theorem sound : next.memory.Sound := by
  rw [h.memory]
  exact hsound.put (by rw [length_numberBytes]; omega) (by rwa [length_numberBytes])

/-- The register is on the stack. -/
theorem keeps : next.memory.Keeps (base + UInt64.ofNat (8 * n)) (m.get r) := by
  rw [h.memory]
  exact hsound.keeps_put hwrites _

/-- Memory is as before but where the register was stored. -/
theorem byte_eq {a : UInt64} (ha : ¬Within base (8 * (n + 1)) a) :
    next.memory.byte a = m.memory.byte a := by
  rw [h.memory]
  apply hsound.byte_put_of_not_within
  · rw [length_numberBytes]
    omega
  · rwa [length_numberBytes]
  · rw [length_numberBytes]
    exact fun hin => ha (hin.inner (by omega))

end Sound

end PushedOne

/-- A register was popped to a value. Words that the next state runs are run after the pop. -/
structure PoppedOne (m : Machine σ) (r : UInt8) (value : UInt64) (next : Machine σ) : Prop where
  standard : next.Standard
  running : next.halted = false
  registers : next.registers.Agree ((m.registers.set r value).set Register.sp (m.get Register.sp + 8))
  memory : next.memory = m.memory
  runs : ∀ words after, next.Runs (fun _ => False) words after →
    m.Runs (fun _ => False) (popWords r ++ words) after

/-- A pop. The register gets the number where the stack pointer is, and the stack pointer goes up. -/
theorem runs_pop {r : UInt8} (hr : r < 32) (hsp : r ≠ Register.sp) (hzero : r ≠ Register.zero)
    (hstandard : m.Standard) (hrunning : m.halted = false) (hapart : Memory.Apart m.memory.regions)
    (hopen : m.memory.Open (m.get Register.sp) 8) {value : UInt64}
    (hkeeps : m.memory.Keeps (m.get Register.sp) value) : ∃ next, m.PoppedOne r value next := by
  obtain ⟨restored, hrestored⟩ := passes_restoreRegister hr hstandard hrunning hkeeps hapart
    (hopen.permits (by norm_num)).1
  have hpointer : restored.get Register.sp = m.get Register.sp := by
    rw [get, hrestored.registers.get_eq, Registers.get_set _ hzero, if_neg]
    · rfl
    · rw [Registers.place_eq_iff (by decide) hr]
      exact hsp.symm
  obtain ⟨next, hnext⟩ := passes_movePointer 8 rfl hrestored.standard hrestored.running
  rw [hpointer] at hnext
  refine ⟨next, hnext.standard, hnext.running, hnext.registers.trans (hrestored.registers.set _ _),
    hnext.memory.trans hrestored.memory, ?_⟩
  intro words after hruns
  exact Runs.cons hrestored (fun _ _ _ hfetch => hfetch) (Runs.cons hnext (fun _ _ _ hfetch => hfetch) hruns)

namespace PoppedOne

variable {r : UInt8} {value : UInt64} {next : Machine σ}

theorem pointer (h : m.PoppedOne r value next) : next.get Register.sp = m.get Register.sp + 8 :=
  (h.registers.get_eq _).trans (Registers.get_set_self _ (by decide) _)

theorem get_eq (h : m.PoppedOne r value next) {q : UInt8} (hq : q < 32) (hsp : q ≠ Register.sp) :
    next.get q = (m.registers.set r value).get q := by
  rw [get, h.registers.get_eq, Registers.get_set _ (by decide), if_neg]
  rwa [Registers.place_eq_iff hq (by decide)]

end PoppedOne

/-! ### Lists of registers -/

/-- Registers were pushed one after the other, down to an address. The stack pointer is all that differs
    in the registers, and the bytes from the address on are all that differs in memory. -/
structure Pushed (m : Machine σ) (base : UInt64) (regs : List UInt8) (pushed : Machine σ) : Prop where
  runs : m.Runs (Within base (8 * regs.length)) (regs.flatMap pushWords) pushed
  registers : pushed.registers.Agree (m.registers.set Register.sp base)
  sound : pushed.memory.Sound
  opens : ∀ addr size, m.memory.Open addr size → pushed.memory.Open addr size
  permits : ∀ addr n wanted, pushed.memory.Permits addr n wanted ↔ m.memory.Permits addr n wanted
  outside : ∀ a, ¬Within base (8 * regs.length) a → pushed.memory.byte a = m.memory.byte a
  stacked : pushed.memory.Stacked base (regs.reverse.map m.get)

/-- No register is pushed. -/
theorem pushed_nil (hstandard : m.Standard) (hrunning : m.halted = false) (hsound : m.memory.Sound) :
    m.Pushed (m.get Register.sp) [] m := by
  refine ⟨.nil _ hstandard hrunning, ?_, hsound, fun _ _ h => h, fun _ _ _ => Iff.rfl, fun _ _ => rfl, trivial⟩
  rw [get, Registers.set_get]
  exact .refl m.registers

/-- A register is pushed, and then others below it. -/
theorem PushedOne.pushed {base : UInt64} {r : UInt8} {rest : List UInt8} {next pushed : Machine σ}
    (h : m.PushedOne base rest.length r next) (hsound : m.memory.Sound)
    (hopen : m.memory.Open base (8 * (rest.length + 1)))
    (hrest : ∀ q ∈ rest, q < 32 ∧ q ≠ Register.sp) (hpushed : next.Pushed base rest pushed) :
    m.Pushed base (r :: rest) pushed := by
  have hslot : m.memory.Open (base + UInt64.ofNat (8 * rest.length)) 8 := hopen.inner (by omega)
  have hwrites := (hslot.permits (by norm_num)).2
  have hinner : ∀ a, Within base (8 * rest.length) a → Within base (8 * (rest.length + 1)) a :=
    fun a ha => ha.mono (by omega)
  refine ⟨?_, ?_, hpushed.sound, ?_, ?_, ?_, ?_⟩
  · exact h.runs _ pushed (hpushed.runs.mono hinner)
  · have hset := h.registers.set Register.sp base
    rw [Registers.set_set] at hset
    exact hpushed.registers.trans hset
  · exact fun addr size hm => hpushed.opens addr size (h.opens hsound.apart hm)
  · exact fun addr size wanted => (hpushed.permits addr size wanted).trans (h.permits hsound.apart)
  · intro a ha
    rw [hpushed.outside a fun hin => ha (hinner a hin)]
    exact h.byte_eq hsound hwrites ha
  · rw [List.reverse_cons, List.map_append]
    have hvalues : rest.reverse.map next.get = rest.reverse.map m.get := by
      apply List.map_congr_left
      intro q hq
      obtain ⟨hbound, hsp⟩ := hrest q (List.mem_reverse.1 hq)
      exact h.get_eq hbound hsp
    apply (hvalues ▸ hpushed.stacked).concat
    rw [List.length_map, List.length_reverse]
    -- the words of the other registers write below
    apply (h.keeps hsound hwrites).congr
    intro i hi
    apply hpushed.outside
    have hbound := hopen.add_le
    rw [UInt64.add_assoc, ← UInt64.ofNat_add, within_iff (by omega), UInt64.add_comm,
      UInt64.add_sub_cancel, UInt64.toNat_ofNat']
    omega

theorem runs_pushes (hregs : ∀ r ∈ regs, r < 32 ∧ r ≠ Register.sp) (hstandard : m.Standard)
    (hrunning : m.halted = false) (hsound : m.memory.Sound) {base : UInt64}
    (hopen : m.memory.Open base (8 * regs.length))
    (htop : base + UInt64.ofNat (8 * regs.length) = m.get Register.sp) :
    ∃ pushed, m.Pushed base regs pushed := by
  induction regs generalizing m with
  | nil =>
      obtain rfl : base = m.get Register.sp := (UInt64.add_zero base).symm.trans htop
      exact ⟨m, pushed_nil hstandard hrunning hsound⟩
  | cons r rest ih =>
      obtain ⟨⟨hr, hsp⟩, hrest⟩ := List.forall_mem_cons.1 hregs
      rw [List.length_cons] at hopen htop
      rw [Nat.mul_succ, UInt64.ofNat_add, ← UInt64.add_assoc] at htop
      obtain ⟨next, hnext⟩ := runs_push hr hsp hstandard hrunning hsound hopen htop
      have hslot : m.memory.Open (base + UInt64.ofNat (8 * rest.length)) 8 := hopen.inner (by omega)
      obtain ⟨pushed, hpushed⟩ := ih hrest hnext.standard hnext.running
        (hnext.sound hsound (hslot.permits (by norm_num)).2)
        (hnext.opens hsound.apart (hopen.mono (by omega))) hnext.pointer.symm
      exact ⟨pushed, hnext.pushed hsound hopen hrest hpushed⟩

/-- Registers were popped one after the other, to values of their own. Of the other registers only the stack
    pointer differs, and nothing was written. -/
structure Popped (m : Machine σ) (regs : List UInt8) (f : UInt8 → UInt64) (popped : Machine σ) : Prop where
  runs : m.Runs (fun _ => False) (regs.flatMap popWords) popped
  memory : popped.memory = m.memory
  pointer : popped.get Register.sp = m.get Register.sp + UInt64.ofNat (8 * regs.length)
  restored : ∀ r ∈ regs, popped.get r = f r
  others : ∀ r < 32, r ∉ regs → r ≠ Register.sp → popped.get r = m.get r

/-- A register is popped, and then others above it. -/
theorem PoppedOne.popped {f : UInt8 → UInt64} {r : UInt8} {rest : List UInt8} {next popped : Machine σ}
    (h : m.PoppedOne r (f r) next) (hr : r < 32) (hsp : r ≠ Register.sp) (hzero : r ≠ Register.zero)
    (hpopped : next.Popped rest f popped) : m.Popped (r :: rest) f popped := by
  refine ⟨h.runs _ popped hpopped.runs, hpopped.memory.trans h.memory, ?_, ?_, ?_⟩
  · have hstep : (8 : UInt64) = UInt64.ofNat 8 := rfl
    rw [hpopped.pointer, h.pointer, hstep, UInt64.add_assoc, ← UInt64.ofNat_add, List.length_cons,
      Nat.mul_succ, Nat.add_comm 8]
  · intro q hq
    by_cases hlater : q ∈ rest
    · exact hpopped.restored q hlater
    · obtain rfl : q = r := (List.mem_cons.1 hq).resolve_right hlater
      rw [hpopped.others q hr hlater hsp, h.get_eq hr hsp]
      exact Registers.get_set_self m.registers hzero _
  · intro q hq hqs hqsp
    rw [List.mem_cons, not_or] at hqs
    rw [hpopped.others q hq hqs.2 hqsp, h.get_eq hq hqsp, Registers.get_set _ hzero, if_neg]
    · rfl
    · rw [Registers.place_eq_iff hq hr]
      exact hqs.1

theorem runs_pops (hregs : ∀ r ∈ regs, r < 32 ∧ r ≠ Register.sp ∧ r ≠ Register.zero)
    (hstandard : m.Standard) (hrunning : m.halted = false) (hapart : Memory.Apart m.memory.regions)
    (hopen : m.memory.Open (m.get Register.sp) (8 * regs.length)) {f : UInt8 → UInt64}
    (hstacked : m.memory.Stacked (m.get Register.sp) (regs.map f)) :
    ∃ popped, m.Popped regs f popped := by
  induction regs generalizing m with
  | nil =>
      refine ⟨m, .nil _ hstandard hrunning, rfl, (UInt64.add_zero _).symm, ?_, fun _ _ _ _ => rfl⟩
      intro r hr
      cases hr
  | cons r rest ih =>
      obtain ⟨⟨hr, hsp, hzero⟩, hrest⟩ := List.forall_mem_cons.1 hregs
      rw [List.length_cons] at hopen
      obtain ⟨next, hnext⟩ :=
        runs_pop hr hsp hzero hstandard hrunning hapart (hopen.mono (by omega)) hstacked.1
      have hnextOpen : next.memory.Open (next.get Register.sp) (8 * rest.length) := by
        rw [hnext.memory, hnext.pointer]
        exact hopen.inner (by omega : 8 + 8 * rest.length ≤ 8 * (rest.length + 1))
      obtain ⟨popped, hpopped⟩ := ih hrest hnext.standard hnext.running (by rwa [hnext.memory]) hnextOpen
        (by rw [hnext.memory, hnext.pointer]; exact hstacked.2)
      exact ⟨popped, hnext.popped hr hsp hzero hpopped⟩

/-! ### A stack -/

/-- Pushes and pops form a stack. Registers, repeated or not, are pushed below the stack pointer where that
    is one range of memory to read and write. Nothing faults, only that range is written, and pops in the
    reverse order, from any state that has the stack pointer and the bytes of the range as the pushes left
    them, restore every register and the stack pointer and change nothing else. -/
theorem pushes_pops_restore (hregs : ∀ r ∈ regs, r < 32 ∧ r ≠ Register.sp ∧ r ≠ Register.zero)
    (hstandard : m.Standard) (hrunning : m.halted = false) (hbuilt : m.memory.Built)
    (hapart : Memory.Apart m.memory.regions) {base : UInt64}
    (hbase : base = m.get Register.sp - UInt64.ofNat (8 * regs.length))
    (hopen : m.memory.Open base (8 * regs.length)) :
    ∃ pushes pops, codesOf (regs.map push) = .ok pushes ∧ codesOf (regs.reverse.map pop) = .ok pops ∧
      ∃ pushed, m.Runs (Within base (8 * regs.length)) pushes pushed ∧
        pushed.registers.Agree (m.registers.set Register.sp base) ∧
        Memory.Apart pushed.memory.regions ∧ pushed.memory.Open base (8 * regs.length) ∧
        (∀ a, ¬Within base (8 * regs.length) a → pushed.memory.byte a = m.memory.byte a) ∧
        (∀ addr n wanted, pushed.memory.Permits addr n wanted ↔ m.memory.Permits addr n wanted) ∧
        ∀ later : Machine σ, later.Standard → later.halted = false →
          Memory.Apart later.memory.regions → later.memory.Open base (8 * regs.length) →
          later.get Register.sp = pushed.get Register.sp →
          (∀ a, Within base (8 * regs.length) a → later.memory.byte a = pushed.memory.byte a) →
          ∃ popped, later.Runs (fun _ => False) pops popped ∧ popped.memory = later.memory ∧
            popped.get Register.sp = m.get Register.sp ∧ (∀ r ∈ regs, popped.get r = m.get r) ∧
            ∀ r < 32, r ∉ regs → r ≠ Register.sp → popped.get r = later.get r := by
  have hbelow : ∀ r ∈ regs, r < 32 := fun r hr => (hregs r hr).1
  have htop : base + UInt64.ofNat (8 * regs.length) = m.get Register.sp := by
    rw [hbase, UInt64.sub_add_cancel]
  obtain ⟨pushed, hpushed⟩ := runs_pushes (fun r hr => ⟨(hregs r hr).1, (hregs r hr).2.1⟩) hstandard
    hrunning (hbuilt.sound hapart) hopen htop
  refine ⟨_, _, codesOf_pushes hbelow, codesOf_pops fun r hr => hbelow r (List.mem_reverse.1 hr),
    pushed, hpushed.runs, hpushed.registers, hpushed.sound.apart, hpushed.opens _ _ hopen,
    hpushed.outside, hpushed.permits, ?_⟩
  intro later hlaterStandard hlaterRunning hlaterApart hlaterOpen hpointer hbytes
  have hat : later.get Register.sp = base :=
    hpointer.trans ((hpushed.registers.get_eq _).trans (Registers.get_set_self _ (by decide) _))
  have hstacked : later.memory.Stacked (later.get Register.sp) (regs.reverse.map m.get) := by
    rw [hat]
    apply hpushed.stacked.congr
    rwa [List.length_map, List.length_reverse]
  obtain ⟨popped, hpopped⟩ := runs_pops (fun r hr => hregs r (List.mem_reverse.1 hr)) hlaterStandard
    hlaterRunning hlaterApart (by rwa [hat, List.length_reverse]) hstacked
  refine ⟨popped, hpopped.runs, hpopped.memory, ?_, ?_, ?_⟩
  · rw [hpopped.pointer, hat, List.length_reverse, htop]
  · exact fun r hr => hpopped.restored r (List.mem_reverse.2 hr)
  · exact fun r hr hrs => hpopped.others r hr fun h => hrs (List.mem_reverse.1 h)

/-- A memory with nothing but a small stack. -/
def stackOnly : Memory where
  regions := [stackRegion 64]
  stack := some 0

/-- A machine with numbers in two registers and the stack pointer at the end of its stack. -/
def atStackTop : Machine Disk where
  files := Files.fresh {} {}
  memory := stackOnly
  registers := (((({} : Registers).set 8 5).set 9 6).set Register.sp Memory.stackTop)

/-- A register that was pushed twice and overwritten in between. -/
theorem pushes_pops_restore_twice :
    ∃ pushed popped, atStackTop.obeyAll? ([8, 9, 8].flatMap pushWords) = some pushed ∧
      ((pushed.set 8 0).set 9 0).obeyAll? ([8, 9, 8].flatMap popWords) = some popped ∧
      popped.get 8 = 5 ∧ popped.get 9 = 6 ∧ popped.get Register.sp = Memory.stackTop := by
  have hregs : ∀ r ∈ ([8, 9, 8] : List UInt8), r < 32 ∧ r ≠ Register.sp ∧ r ≠ Register.zero := by
    simp only [List.mem_cons, List.not_mem_nil, or_false, forall_eq_or_imp, forall_eq]
    decide
  have hcodes : ∀ r ∈ ([8, 9, 8] : List UInt8), r < 32 := fun r hr => (hregs r hr).1
  have hbuilt : stackOnly.Built := .place (p := .stack 64) .empty rfl
  have hbase : Memory.stackTop - 24 = atStackTop.get Register.sp - UInt64.ofNat (8 * 3) := rfl
  have hopen : stackOnly.Open (Memory.stackTop - 24) 24 :=
    ⟨stackRegion 64, List.mem_singleton_self _, by decide, by decide +kernel⟩
  obtain ⟨pushes, pops, hpushes, hpops, pushed, hpushed, hregisters, hapart, hstill, -, -, hrestores⟩ :=
    pushes_pops_restore (m := atStackTop) hregs ⟨rfl, rfl⟩ rfl hbuilt (List.pairwise_singleton _ _)
      hbase hopen
  cases (codesOf_pushes hcodes).symm.trans hpushes
  cases (codesOf_pops hcodes).symm.trans hpops
  have hpointer : ((pushed.set 8 0).set 9 0).get Register.sp = pushed.get Register.sp := by
    change ((pushed.registers.set 8 0).set 9 0).get Register.sp = pushed.registers.get Register.sp
    rw [Registers.get_set _ (by decide), if_neg (by decide), Registers.get_set _ (by decide),
      if_neg (by decide)]
  obtain ⟨popped, hpopped, -, hsp, hvalues, -⟩ := hrestores ((pushed.set 8 0).set 9 0)
    ⟨hpushed.standard.table, hpushed.standard.actions⟩ hpushed.running hapart hstill hpointer fun _ _ => rfl
  exact ⟨pushed, popped, hpushed.obeyed, hpopped.obeyed, hvalues 8 (by decide), hvalues 9 (by decide), hsp⟩

end Machine

end VectorRisc
