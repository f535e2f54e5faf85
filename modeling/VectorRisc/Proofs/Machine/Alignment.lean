/-
Module: VectorRisc.Proofs.Machine.Alignment
Layer: Proofs
Purpose: The program counter of a machine with the standard tables stays on words. Branches go by whole
  words, jumps to an address in the word go to words, and so the one way off is a jump by a register that
  holds an address between words.
Imports: Mathlib.Tactic, VectorRisc.Proofs.Instruction.RoundTrip, VectorRisc.Proofs.Machine.Ending,
  VectorRisc.Proofs.Object.Tiling
Trusted boundary: none
Main exports: Machine.jumpTarget_aligned, Machine.JumpsAstray, Machine.clock_aligned
Open obligations: none
-/
import Mathlib.Tactic
import VectorRisc.Proofs.Instruction.RoundTrip
import VectorRisc.Proofs.Machine.Ending
import VectorRisc.Proofs.Object.Tiling

namespace VectorRisc

/-! ### Targets -/

/-- The action goes to an address in the word. -/
def Action.isJump : Action → Bool
  | .jump _ => true
  | _ => false

/-- Only instructions of the jump layout have that action. -/
theorem Action.format_of_isJump : ∀ entry ∈ Action.all, entry.2.isJump = true →
    ∀ m ∈ Mnemonic.standard, m.name = entry.1 → m.format = .j := by
  decide +kernel

/-- The target in the word of a jump is a word's address. -/
theorem Instruction.imm_aligned {w : Word} {x : Instruction} (hdecode : decode Table.standard w = .ok x)
    {linked : Bool} (haction : Action.all.lookup x.mnemonic.name = some (.jump linked)) :
    4 ∣ x.imm.toUInt64.toNat := by
  obtain ⟨m, hm, -, -, rfl⟩ := decode_eq_ok_iff.1 hdecode
  rw [Word.unpack_mnemonic] at haction
  have hformat := Action.format_of_isJump _ (Action.mem_all haction) rfl m hm rfl
  rw [Word.unpack, hformat]
  simp only
  split
  · exact Nat.dvd_zero 4
  · have hfield : w.addrJ.toNat < 2 ^ 25 := by
      rw [Word.toNat_addrJ]
      omega
    rw [UInt64.toUInt64_toInt64, toNat_target hfield]
    exact Nat.dvd_mul_right 4 _

namespace Machine

theorem add_aligned {a b : UInt64} (ha : 4 ∣ a.toNat) (hb : 4 ∣ b.toNat) : 4 ∣ (a + b).toNat := by
  rw [UInt64.toNat_add]
  omega

theorem jumpTarget_aligned (pc : UInt64) {imm : Int64} (h : 4 ∣ imm.toUInt64.toNat) :
    4 ∣ (jumpTarget pc imm).toNat := by
  have hregion : (pc &&& ~~~jumpMask).toNat = pc.toNat / 2 ^ 27 * 2 ^ 27 :=
    Bytes.toNat_and_not_mask pc rfl
  have hlow : (pc.toNat / 2 ^ 27 * 2 ^ 27) % 2 ^ 2 = 0 := by omega
  apply Nat.dvd_of_mod_eq_zero
  have hzero := Nat.mod_eq_zero_of_dvd h
  rw [jumpTarget, UInt64.toNat_or, hregion]
  exact (Nat.or_mod_two_pow (n := 2)).trans (by rw [hlow, hzero]; rfl)

/-- A branch goes by whole words. -/
theorem distance_aligned (imm : Int64) : 4 ∣ (imm * 4).toUInt64.toNat := by
  have hproduct : (imm * 4).toUInt64 = imm.toUInt64 * 4 := rfl
  have hfour : (4 : UInt64).toNat = 4 := rfl
  rw [hproduct, UInt64.toNat_mul, hfour]
  omega

/-! ### One clock -/

variable {σ : Type}

/-- The machine is about to jump by a register that holds an address between words. -/
def JumpsAstray (m : Machine σ) : Prop :=
  ∃ x linked, m.Faces x (.jumpRegister linked) ∧ ¬4 ∣ (m.get x.rs).toNat

variable [FileSystem σ]

/-- A clock leaves the program counter on a word, unless it jumps astray. -/
theorem clock_aligned {m : Machine σ} (hstandard : m.Standard) (h : 4 ∣ m.registers.pc.toNat) :
    4 ∣ m.clock.machine.registers.pc.toNat ∨ m.JumpsAstray := by
  rcases clock_cases m with ⟨-, hsame, -⟩ | ⟨-, hrunning, word, x, action, hfound, -, hnext⟩
  · rw [hsame]
    exact .inl h
  · obtain ⟨-, hdecode, haction⟩ := instructionAt_eq_ok hfound
    rw [hstandard.table] at hdecode
    rw [hstandard.actions] at haction
    obtain ⟨files, log, hready⟩ := ready_eq m word x
    have hmoved : 4 ∣ (m.ready word x).registers.pc.toNat := by
      rw [hready]
      exact add_aligned h (by decide)
    have hpc : m.clock.machine.registers.pc =
        ((m.ready word x).perform m.registers.pc x action).machine.registers.pc := by
      rw [hnext]
      rfl
    rw [hpc]
    cases perform_ended (m.ready word x) m.registers.pc (Instruction.narrow_of_decode hdecode) action with
    | refused cause herror hblamed hsame =>
        obtain ⟨filesAfter, logAfter, hsame⟩ := hsame
        rw [hsame]
        exact .inl hmoved
    | done herror hclocks hregisters =>
        rcases hregisters.pc with hstays | htarget
        · rw [hstays]
          exact .inl hmoved
        · cases action with
          | branch test =>
              rw [← Option.some.inj htarget]
              exact .inl (add_aligned hmoved (distance_aligned x.imm))
          | jump linked =>
              rw [← Option.some.inj htarget]
              exact .inl (jumpTarget_aligned _ (Instruction.imm_aligned hdecode haction))
          | jumpRegister linked =>
              by_cases haligned : 4 ∣ (m.get x.rs).toNat
              · rw [← Option.some.inj htarget, hready]
                exact .inl haligned
              · exact .inr ⟨x, linked, ⟨hrunning, word, hfound⟩, haligned⟩
          | _ => cases htarget

end Machine

end VectorRisc
