/-
Module: VectorRisc.Proofs.Machine.Service
Layer: Proofs
Purpose: Services touch only what they are given. A service that succeeds sets the register of its result
  and no other; it changes no memory unless it reads into it, and then the bytes that it has read and none
  beyond those it was offered, or moves the break. A service fails only at a memory fault, or because there
  is none of its number.
Imports: Mathlib.Tactic, VectorRisc.Proofs.Files.Input, VectorRisc.Proofs.Machine.Effect,
  VectorRisc.Proofs.Machine.Failure, VectorRisc.Proofs.Memory.Break
Trusted boundary: none
Main exports: Memory.Receives, Machine.Touches, Machine.Serves, Machine.serve_serves,
  Machine.service_touches
Open obligations: none
-/
import Mathlib.Tactic
import VectorRisc.Proofs.Files.Input
import VectorRisc.Proofs.Machine.Effect
import VectorRisc.Proofs.Machine.Failure
import VectorRisc.Proofs.Memory.Break

namespace VectorRisc

/-! ### Memory -/

namespace Memory

/-- The memory after bytes were received at an address: they stand there, and every other byte is as it
    was. -/
structure Receives (m : Memory) (addr : UInt64) (bytes : List UInt8) (after : Memory) : Prop where
  received : after.get addr bytes.length = bytes
  alters : m.Alters after (Region.Written addr bytes.length)

variable {m : Memory}

/-- No bytes make no difference. -/
theorem receives_nil (m : Memory) (addr : UInt64) : m.Receives addr [] m := by
  refine ⟨?_, .refl m _⟩
  rw [get]
  split <;> rfl

theorem Built.limited (h : m.Built) : m.Limited := fun r hr => (h.storage r hr).limit

end Memory

namespace Machine

variable {σ : Type}

/-! ### What a service may touch -/

/-- The line that a program gets that offers as many bytes as its second argument says. -/
def nextLine (m : Machine σ) : List UInt8 :=
  Input.throughFeed (m.files.console.input.rest.take (transferSize (m.argument 1 - 1)))

/-- Whether the machine has halted after a service, and with which exit code. -/
def ends (m : Machine σ) : Service → Bool × Int64
  | .exit => (true, 0)
  | .exitWith => (true, (m.argument 0).toInt64)
  | _ => (m.halted, m.exitCode)

/-- What becomes of memory at a service, given its result. A line is received with a zero byte after it,
    within the size that was offered; from a descriptor no more is received than was asked for, and the
    result is how much it was; and a break that moves resizes the heap. -/
def Touches [FileSystem σ] (m : Machine σ) (result : UInt64) (after : Memory) : Service → Prop
  | .readString =>
    if m.argument 1 = 0 then result = 0 ∧ after = m.memory
    else result.toNat = m.nextLine.length ∧ m.nextLine.length < (m.argument 1).toNat ∧
      m.memory.Receives (m.argument 0) (m.nextLine ++ [0]) after
  | .read =>
    match (m.files.read (m.argument 0) (transferSize (m.argument 2))).1 with
    | .error _ => result = failure ∧ after = m.memory
    | .ok bytes => result.toNat = bytes.length ∧ bytes.length ≤ transferSize (m.argument 2) ∧
      m.memory.Receives (m.argument 1) bytes after
  | .sbrk =>
    match m.memory.sbrk (m.argument 0).toInt64 with
    | (_, .error _) => result = failure ∧ after = m.memory
    | (brk, .ok moved) => result = brk ∧ after = moved ∧
      m.memory.Resizes (m.argument 0).toInt64 after
  | _ => after = m.memory

/-- How a service ends: at a fault, with files and the log changed at most; or with a result, which is the
    only register that it changes. -/
inductive Serves [FileSystem σ] (m : Machine σ) (service : Service) (step : Step σ) : Prop where
  | refused (cause : Memory.Error) (files : Files σ) (log : Array Event) (hcause : m.memory.Refuses cause)
      (h : step = ⟨{ m with files := files, log := log }, some (.memory cause)⟩)
  | answered (result : UInt64) (after : Memory) (files : Files σ) (log : Array Event)
      (htouches : m.Touches result after service)
      (h : step = ⟨{ m with
        registers := m.registers.set Register.v0 result, memory := after, files := files, log := log
        halted := (m.ends service).1, exitCode := (m.ends service).2 }, none⟩)

/-! ### The services -/

theorem toNat_pred {size : UInt64} (h : size ≠ 0) : (size - 1).toNat + 1 = size.toNat := by
  have hpos : size.toNat ≠ 0 := fun hzero => h (UInt64.toNat_inj.1 hzero)
  have hlt := size.toNat_lt
  rw [UInt64.toNat_sub, UInt64.toNat_one]
  omega

section Services

variable [FileSystem σ] {m : Machine σ} {service : Service}

/-- A service that ends with a result and has changed files at most. -/
theorem answer_serves (hends : m.ends service = (m.halted, m.exitCode)) (files : Files σ) {result : UInt64}
    (h : m.Touches result m.memory service) :
    m.Serves service ({ m with files := files }.answer result) := by
  refine .answered result m.memory files m.log h ?_
  rw [hends]
  rfl

/-- A service that the memory refuses, having changed files at most. -/
theorem faultAt_serves (files : Files σ) {cause : Memory.Error} (h : m.memory.Refuses cause) :
    m.Serves service ({ m with files := files }.faultAt cause) :=
  .refused cause files m.log h rfl

/-- Bytes that a service has read are received, or the store is refused. -/
theorem storeAnswer_serves (hends : m.ends service = (m.halted, m.exitCode))
    (hstorage : ∀ r ∈ m.memory.regions, r.Sound) (files : Files σ) {addr : UInt64} {bytes : List UInt8}
    (hn : bytes.length < 2 ^ 64) {result : UInt64}
    (h : ∀ after, m.memory.Receives addr bytes after → m.Touches result after service) :
    m.Serves service ({ m with files := files }.storeAnswer addr bytes result) := by
  rw [storeAnswer]
  split
  · rename_i cause hfault
    exact faultAt_serves files (.store addr _ hfault)
  · rename_i hfault
    have hreceived : m.memory.Receives addr bytes (m.memory.put addr bytes) :=
      ⟨Memory.get_put hstorage hn hfault, Memory.alters_put hstorage hn hfault⟩
    refine .answered result _ files m.log (h _ hreceived) ?_
    rw [hends]
    rfl

theorem readString_serves (hstorage : ∀ r ∈ m.memory.regions, r.Sound) :
    m.Serves .readString (m.readString (m.argument 0) (m.argument 1)) := by
  rw [readString]
  split
  · rename_i hzero
    have htouches : m.Touches 0 m.memory .readString := by
      rw [Touches, if_pos hzero]
      exact ⟨rfl, rfl⟩
    exact answer_serves rfl m.files htouches
  · rename_i hsize
    have hpred := toNat_pred hsize
    have hlimit : transferSize (m.argument 1 - 1) ≤ (m.argument 1 - 1).toNat := Nat.min_le_left _ _
    have hline : m.nextLine.length ≤ transferSize (m.argument 1 - 1) :=
      (Input.length_throughFeed_le _).trans (List.length_take_le _ _)
    -- one byte of the size is kept back for the zero at the end
    have hfits : m.nextLine.length < (m.argument 1).toNat := by omega
    have hbound := (m.argument 1).toNat_lt
    have hlength : (m.nextLine ++ [0]).length < 2 ^ 64 := by
      rw [List.length_append, List.length_singleton]
      omega
    have hread : (m.files.console.input.readLine (transferSize (m.argument 1 - 1))).1.getD [] =
        m.nextLine := Input.readLine_eq _ _
    simp only [takeInput, Files.take, hread]
    refine storeAnswer_serves rfl hstorage _ hlength ?_
    intro after hafter
    rw [Touches, if_neg hsize, UInt64.toNat_ofNat_of_lt' (hfits.trans hbound)]
    exact ⟨rfl, hfits, hafter⟩

theorem readFile_serves (hhost : FileSystem.Bounded σ) (hstorage : ∀ r ∈ m.memory.regions, r.Sound) :
    m.Serves .read (m.readFile (m.argument 0) (m.argument 1) (m.argument 2)) := by
  simp only [readFile]
  split
  · rename_i hread
    refine answer_serves rfl _ ?_
    simp only [Touches, hread]
    exact ⟨trivial, trivial⟩
  · rename_i hread
    refine answer_serves rfl _ ?_
    simp only [Touches, hread]
    exact ⟨rfl, Nat.zero_le _, Memory.receives_nil m.memory _⟩
  · rename_i bytes _ hread
    have hlength := Files.length_read_le hhost hread
    have hlimit : transferSize (m.argument 2) ≤ (m.argument 2).toNat := Nat.min_le_left _ _
    have hbound := (m.argument 2).toNat_lt
    have hsmall : bytes.length < 2 ^ 64 := by omega
    refine storeAnswer_serves rfl hstorage _ hsmall ?_
    intro after hafter
    simp only [Touches, hread]
    exact ⟨UInt64.toNat_ofNat_of_lt' hsmall, hlength, hafter⟩

theorem moveBreak_serves (hstorage : ∀ r ∈ m.memory.regions, r.Sound) :
    m.Serves .sbrk (m.moveBreak (m.argument 0).toInt64) := by
  simp only [moveBreak, Memory.sbrk]
  cases hmoved : m.memory.moveBreak (m.argument 0).toInt64 with
  | error e =>
      have htouches : m.Touches failure m.memory .sbrk := by
        simp only [Touches, Memory.sbrk, hmoved]
        exact ⟨trivial, trivial⟩
      exact answer_serves rfl m.files htouches
  | ok after =>
      have htouches : m.Touches m.memory.heapEnd after .sbrk := by
        simp only [Touches, Memory.sbrk, hmoved]
        exact ⟨trivial, trivial, Memory.moveBreak_resizes hstorage hmoved⟩
      simp only [noteMemory]
      split
      · exact .answered _ after m.files _ htouches rfl
      · exact .answered _ after m.files _ htouches rfl

theorem print_serves (bytes : List UInt8) (hends : m.ends service = (m.halted, m.exitCode))
    (h : ∀ result, m.Touches result m.memory service) : m.Serves service (m.print bytes) := by
  simp only [print]
  split
  · exact answer_serves hends _ (h _)
  · exact answer_serves hends _ (h _)

theorem printString_serves : m.Serves .printString (m.printString (m.argument 0)) := by
  rw [printString]
  split
  · rename_i hload
    exact faultAt_serves m.files (Memory.refuses_of_loadStringFrom hload)
  · exact print_serves _ rfl fun _ => rfl

theorem openFile_serves :
    m.Serves .openFile (m.openFile (m.argument 0) (m.argument 1) (m.argument 2)) := by
  rw [openFile]
  split
  · rename_i hload
    exact faultAt_serves m.files (Memory.refuses_of_loadStringFrom hload)
  · exact answer_serves rfl _ rfl

theorem writeFile_serves :
    m.Serves .write (m.writeFile (m.argument 0) (m.argument 1) (m.argument 2)) := by
  rw [writeFile]
  split
  · exact answer_serves rfl m.files rfl
  · split
    · rename_i hload
      exact faultAt_serves m.files (Memory.refuses_of_read hload)
    · exact answer_serves rfl _ rfl

/-- Every service touches only what it may. -/
theorem serve_serves (hhost : FileSystem.Bounded σ) (hstorage : ∀ r ∈ m.memory.regions, r.Sound)
    (service : Service) : m.Serves service (m.serve service) := by
  cases service with
  | printString => exact printString_serves
  | readString => exact readString_serves hstorage
  | sbrk => exact moveBreak_serves hstorage
  | openFile => exact openFile_serves
  | read => exact readFile_serves hhost hstorage
  | write => exact writeFile_serves
  | exit => exact .answered _ m.memory m.files m.log rfl rfl
  | exitWith => exact .answered _ m.memory m.files m.log rfl rfl
  | readInt => exact answer_serves rfl _ rfl
  | readFloat => exact answer_serves rfl _ rfl
  | readDouble => exact answer_serves rfl _ rfl
  | readChar => exact answer_serves rfl _ rfl
  | close => exact answer_serves rfl _ rfl
  | _ => exact print_serves _ rfl fun _ => rfl

/-- A request for a service is noted at most before it is served. -/
theorem performService_eq (m : Machine σ) (pc : UInt64) (log : Array Event) :
    ∃ noted, (m.elsewhere pc log).performService =
      match Service.ofCode? (m.get Register.v0) with
      | none => ⟨m.elsewhere pc noted, some (.unknownService (m.get Register.v0))⟩
      | some service => (m.elsewhere pc noted).serve service := by
  have hnoted : ∀ event, ∃ noted, (m.elsewhere pc log).note event = m.elsewhere pc noted := by
    intro event
    rw [note]
    split
    · exact ⟨_, rfl⟩
    · exact ⟨log, rfl⟩
  obtain ⟨noted, hnote⟩ :=
    hnoted (.service (m.get Register.v0) (m.argument 0) (m.argument 1) (m.argument 2))
  refine ⟨noted, ?_⟩
  cases hservice : Service.ofCode? (m.get Register.v0) with
  | none => simp only [performService, get_elsewhere, argument_elsewhere, hnote, hservice]
  | some service => simp only [performService, get_elsewhere, argument_elsewhere, hnote, hservice]

/-- A clock that has reached a request for a service. Either it fails, at a memory fault or because there
    is no service of that number, and has touched nothing but files; or the service has touched what it
    may, and the register of its result is the only one that it has changed. -/
theorem service_touches (hhost : FileSystem.Bounded σ) {x : Instruction} (h : m.ComesTo "syscall" x)
    (hbuilt : m.memory.Built) :
    (∃ cause files log,
      ((∃ addr n wanted, cause = .memory (.fault addr n wanted)) ∨
        (cause = .unknownService (m.get Register.v0) ∧ Service.ofCode? (m.get Register.v0) = none)) ∧
      m.clock = ⟨{ m with
        registers := m.onward, clocks := m.clocks + 1, files := files, log := log }, some cause⟩) ∨
    ∃ service result after files log, Service.ofCode? (m.get Register.v0) = some service ∧
      m.Touches result after service ∧
      m.clock = ⟨{ m with
        registers := m.onward.set Register.v0 result, memory := after, clocks := m.clocks + 1
        files := files, log := log
        halted := (m.ends service).1, exitCode := (m.ends service).2 }, none⟩ := by
  have haction : Action.all.lookup (Text.ofString "syscall") = some .service := rfl
  obtain ⟨log, hclock⟩ := h.clock_eq haction
  obtain ⟨noted, hperform⟩ := performService_eq m (m.registers.pc + 4) log
  rw [perform, hperform] at hclock
  cases hservice : Service.ofCode? (m.get Register.v0) with
  | none =>
      simp only [hservice] at hclock
      exact .inl ⟨_, m.files, noted, .inr ⟨rfl, rfl⟩, hclock⟩
  | some service =>
      simp only [hservice] at hclock
      cases serve_serves (m := m.elsewhere (m.registers.pc + 4) noted) hhost hbuilt.storage service with
      | refused cause files log hcause hstep =>
          obtain ⟨addr, n, wanted, rfl⟩ := hbuilt.limited.refuses hcause
          rw [hstep] at hclock
          exact .inl ⟨_, files, log, .inl ⟨addr, n, wanted, rfl⟩, hclock⟩
      | answered result after files log htouches hstep =>
          rw [hstep] at hclock
          refine .inr ⟨service, result, after, files, log, rfl, htouches, ?_⟩
          rw [hclock]
          simp only [tally, Registers.setKernel_set]
          rfl

end Services

/-- A machine that asks for a line of three bytes, with more than that to be read. -/
def prompted : Machine Disk where
  files := Files.fresh { input := { stream := Piece.ofBytes (Text.ofString "hidden") } } {}
  memory := { regions := [
    Region.make (Text.ofString "text") Segment.textBase 4 Access.rx
      (Bytes.ofList (Bytes.ofNat 4 (Word.ofJ 5 0).toNat)),
    Region.make (Text.ofString "data") Segment.dataBase 32 Access.rw ByteArray.empty] }
  registers := { ((({} : Registers).set Register.v0 8).set Register.a0 Segment.dataBase).set
      (Register.a0 + 1) 4 with pc := Segment.textBase }

theorem built_prompted : prompted.memory.Built :=
  .place (p := .region (Text.ofString "data") Segment.dataBase 32 Access.rw ByteArray.empty (by decide))
    (.place (p := .region (Text.ofString "text") Segment.textBase 4 Access.rx
      (Bytes.ofList (Bytes.ofNat 4 (Word.ofJ 5 0).toNat)) (by decide)) .empty rfl) rfl

/-- Three bytes of the line and a zero byte are received, the result is three, and no other byte of memory
    has changed. -/
theorem service_touches_prompted :
    prompted.clock.machine.get Register.v0 = 3 ∧
      prompted.clock.machine.memory.get Segment.dataBase 4 = Text.ofString "hid" ++ [0] ∧
      ∀ a, ¬Region.Written Segment.dataBase 4 a →
        prompted.clock.machine.memory.byte a = prompted.memory.byte a := by
  have hcomes : prompted.ComesTo "syscall" { mnemonic := Mnemonic.jump "syscall" 0x05 [] } :=
    ⟨⟨rfl, rfl⟩, ⟨_, rfl, Word.ofJ 5 0, rfl⟩, rfl⟩
  have hsucceeds : prompted.clock.error = none := rfl
  rcases service_touches Disk.bounded hcomes built_prompted with
    ⟨cause, files, log, -, hclock⟩ | ⟨service, result, after, files, log, hservice, htouches, hclock⟩
  · rw [hclock] at hsucceeds
    cases hsucceeds
  · have hnumber : Service.ofCode? (prompted.get Register.v0) = some .readString := rfl
    obtain rfl : .readString = service := Option.some.inj (hnumber.symm.trans hservice)
    have hline : prompted.nextLine = Text.ofString "hid" := rfl
    rw [Touches, if_neg (by decide), hline] at htouches
    obtain ⟨hresult, -, hafter⟩ := htouches
    have hthree : result = 3 := UInt64.toNat_inj.1 (hresult.trans rfl)
    rw [hclock]
    refine ⟨?_, hafter.received, fun a => hafter.alters.byte⟩
    rw [← hthree]
    exact Registers.get_set_self _ (by decide) _

end Machine

end VectorRisc
