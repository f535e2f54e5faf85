/-
Module: VectorRisc.Proofs.Machine.Vector
Layer: Proofs
Purpose: Vector instructions on integers work lane by lane. Each lane of the result is what the scalar
  instruction gives for the lanes of the operands, and nothing else changes. A vector that is stored stands
  in memory as its 32-bit lanes, and is loaded again.
Imports: Mathlib.Tactic, VectorRisc.Proofs.Machine.Arithmetic, VectorRisc.Proofs.Machine.Effect,
  VectorRisc.Proofs.Machine.Lanes, VectorRisc.Proofs.Memory.Store
Trusted boundary: none
Main exports: Machine.GivesLanes, Machine.GivesLow, Machine.lanes_of_scalars,
  Machine.lanes_of_comparisons, Machine.lanes_of_shuffles, Machine.stored_vector_loads,
  Machine.vectors_lane_by_lane
Open obligations: none
-/
import Mathlib.Tactic
import VectorRisc.Proofs.Machine.Arithmetic
import VectorRisc.Proofs.Machine.Effect
import VectorRisc.Proofs.Machine.Lanes
import VectorRisc.Proofs.Memory.Store

namespace VectorRisc

/-- The low word of a word that was sign extended. -/
theorem Arithmetic.toUInt32_extend32 (x : UInt32) : (extend32 x).toUInt32 = x := by
  have hbits : (extend32 x).toUInt32.toBitVec = (x.toBitVec.signExtend 64).setWidth 32 := rfl
  apply UInt32.toBitVec_inj.1
  rw [hbits]
  ext i hi
  rw [BitVec.getElem_setWidth, BitVec.getLsbD_signExtend]
  simp [hi, show i < 64 by omega]

namespace Lanes

/-- A digit of a selector names a lane, modulo the number of lanes. -/
theorem toNat_shiftRight_digit (selector : UInt64) {n : Nat} (hn : n < 16) :
    (selector >>> UInt64.ofNat (4 * n)).toNat = selector.toNat / 16 ^ n := by
  rw [UInt64.toNat_shiftRight, UInt64.toNat_ofNat', Nat.shiftRight_eq_div_pow, Nat.mod_eq_of_lt,
    Nat.mod_eq_of_lt, Nat.pow_mul]
  all_goals omega

theorem index32_digit (selector : UInt64) {n k : Fin 8}
    (hk : k.val = selector.toNat / 16 ^ n.val % 16 % 8) :
    index32 (selector >>> UInt64.ofNat (4 * n.val)) = k := by
  apply Fin.ext
  rw [hk]
  simp only [index32, toNat_shiftRight_digit selector (show n.val < 16 by omega)]
  omega

theorem index64_digit (selector : UInt64) {n k : Fin 4}
    (hk : k.val = selector.toNat / 16 ^ n.val % 16 % 4) :
    index64 (selector >>> UInt64.ofNat (4 * n.val)) = k := by
  apply Fin.ext
  rw [hk]
  simp only [index64, toNat_shiftRight_digit selector (show n.val < 16 by omega)]
  omega

end Lanes

namespace Machine

variable (σ : Type) [FileSystem σ]

/-! ### Lanes of results -/

/-- Executed, the instruction gives its vector register a content and changes nothing else. -/
def GivesLanes (name : String) (content : Machine σ → Instruction → Lanes → Prop) : Prop :=
  ∀ (m : Machine σ) (x : Instruction), m.ComesTo name x →
    ∃ result, content m x result ∧ m.Leaves (m.onward.setVector x.rd result) m.memory

variable {σ}

theorem givesLanes_lanes {name : String} {f : Lanes → Lanes → Lanes}
    (haction : Action.all.lookup (Text.ofString name) = some (.lanes f)) :
    GivesLanes σ name fun m x result =>
      result = f (m.registers.vector x.rs) (m.registers.vector x.rt) :=
  fun _ _ h => ⟨_, rfl, h.leaves_setVector haction fun _ => rfl⟩

theorem givesLanes_lanesBy {name : String} {f : Lanes → UInt64 → Lanes}
    (haction : Action.all.lookup (Text.ofString name) = some (.lanesBy f)) :
    GivesLanes σ name fun m x result => result = f (m.registers.vector x.rs) (m.get x.rt) :=
  fun _ _ h => ⟨_, rfl, h.leaves_setVector haction fun _ => rfl⟩

theorem givesLanes_broadcast {name : String} {f : UInt64 → Lanes}
    (haction : Action.all.lookup (Text.ofString name) = some (.broadcast f)) :
    GivesLanes σ name fun m x result => result = f (m.get x.rs) :=
  fun _ _ h => ⟨_, rfl, h.leaves_setVector haction fun _ => rfl⟩

theorem givesLanes_replace {name : String} {f : Lanes → UInt64 → UInt64 → Lanes}
    (haction : Action.all.lookup (Text.ofString name) = some (.replace f)) :
    GivesLanes σ name fun m x result =>
      result = f (m.registers.vector x.rd) (m.get x.rt) (m.get x.rs) :=
  fun _ _ h => ⟨_, rfl, h.leaves_setVector haction fun _ => rfl⟩

theorem GivesLanes.imp {name : String} {content other : Machine σ → Instruction → Lanes → Prop}
    (h : GivesLanes σ name content) (himp : ∀ m x result, content m x result → other m x result) :
    GivesLanes σ name other := by
  intro m x hcomes
  obtain ⟨result, hcontent, hleaves⟩ := h m x hcomes
  exact ⟨result, himp m x result hcontent, hleaves⟩

/-! ### Scalar instructions on lanes -/

/-- Instructions on pairs of 64-bit lanes, with the scalar instructions of the same operations. -/
def wideForms : List (String × String) :=
  [("vaddi64", "add"), ("vsubi64", "sub"), ("vmuli64", "mul"), ("vdivi64", "div"), ("vand", "and"),
    ("vor", "or"), ("vxor", "xor"), ("vsllv64", "sll"), ("vsrlv64", "srl"), ("vsrav64", "sra"),
    ("vclti64", "slt")]

/-- Instructions on pairs of 32-bit lanes, with the scalar instructions on low words. -/
def narrowForms : List (String × String) :=
  [("vaddi32", "addw"), ("vsubi32", "subw"), ("vmuli32", "mulw"), ("vdivi32", "divw"),
    ("vsllv32", "sllw"), ("vsrlv32", "srlw"), ("vsrav32", "sraw")]

/-- Shifts of 64-bit lanes by a scalar register. -/
def wideShifts : List (String × String) := [("vsll64", "sll"), ("vsrl64", "srl"), ("vsra64", "sra")]

/-- Shifts of 32-bit lanes by a scalar register. -/
def narrowShifts : List (String × String) :=
  [("vsll32", "sllw"), ("vsrl32", "srlw"), ("vsra32", "sraw")]

theorem wideForms_action : ∀ form ∈ wideForms, ∃ f,
    Action.all.lookup (Text.ofString form.1) = some (.lanes (Lanes.zip64 f)) ∧
      Action.all.lookup (Text.ofString form.2) = some (.compute f) := by
  intro form hform
  simp only [wideForms, List.mem_cons, List.not_mem_nil, or_false] at hform
  rcases hform with rfl | rfl | rfl | rfl | rfl | rfl | rfl | rfl | rfl | rfl | rfl <;>
    exact ⟨_, rfl, rfl⟩

theorem narrowForms_action : ∀ form ∈ narrowForms, ∃ f,
    Action.all.lookup (Text.ofString form.1) = some (.lanes (Lanes.zip32 f)) ∧
      Action.all.lookup (Text.ofString form.2) = some (.compute (Arithmetic.onLow f)) := by
  intro form hform
  simp only [narrowForms, List.mem_cons, List.not_mem_nil, or_false] at hform
  rcases hform with rfl | rfl | rfl | rfl | rfl | rfl | rfl <;> exact ⟨_, rfl, rfl⟩

theorem wideShifts_action : ∀ form ∈ wideShifts, ∃ f : UInt64 → UInt64 → UInt64,
    Action.all.lookup (Text.ofString form.1) =
      some (.lanesBy fun v amount => v.map64 fun lane => f lane amount) ∧
      Action.all.lookup (Text.ofString form.2) = some (.compute f) := by
  intro form hform
  simp only [wideShifts, List.mem_cons, List.not_mem_nil, or_false] at hform
  rcases hform with rfl | rfl | rfl <;> exact ⟨_, rfl, rfl⟩

theorem narrowShifts_action : ∀ form ∈ narrowShifts, ∃ f : UInt32 → UInt32 → UInt32,
    Action.all.lookup (Text.ofString form.1) =
      some (.lanesBy fun v amount => v.map32 fun lane => f lane amount.toUInt32) ∧
      Action.all.lookup (Text.ofString form.2) = some (.compute (Arithmetic.onLow f)) := by
  intro form hform
  simp only [narrowShifts, List.mem_cons, List.not_mem_nil, or_false] at hform
  rcases hform with rfl | rfl | rfl <;> exact ⟨_, rfl, rfl⟩

variable (σ) in
/-- On values with these low words, the instruction gives a value with this low word. -/
def GivesLow (name : String) (a b value : UInt32) : Prop :=
  ∀ wide wide' : UInt64, wide.toUInt32 = a → wide'.toUInt32 = b →
    ∃ result, Gives σ name wide wide' result ∧ result.toUInt32 = value

theorem givesLow_compute (name : String) {f : UInt32 → UInt32 → UInt32}
    (haction : Action.all.lookup (Text.ofString name) = some (.compute (Arithmetic.onLow f)))
    (a b : UInt32) : GivesLow σ name a b (f a b) := by
  rintro wide wide' rfl rfl
  exact ⟨_, gives_compute name haction wide wide', Arithmetic.toUInt32_extend32 _⟩

/-- Lanes of both widths under two registers, and under one and an amount. -/
theorem lanes_of_scalars :
    (∀ form ∈ wideForms, GivesLanes σ form.1 fun m x result => ∀ n, Gives σ form.2
      ((m.registers.vector x.rs).get64 n) ((m.registers.vector x.rt).get64 n) (result.get64 n)) ∧
    (∀ form ∈ narrowForms, GivesLanes σ form.1 fun m x result => ∀ n, GivesLow σ form.2
      ((m.registers.vector x.rs).get32 n) ((m.registers.vector x.rt).get32 n) (result.get32 n)) ∧
    (∀ form ∈ wideShifts, GivesLanes σ form.1 fun m x result => ∀ n, Gives σ form.2
      ((m.registers.vector x.rs).get64 n) (m.get x.rt) (result.get64 n)) ∧
    ∀ form ∈ narrowShifts, GivesLanes σ form.1 fun m x result => ∀ n, GivesLow σ form.2
      ((m.registers.vector x.rs).get32 n) (m.get x.rt).toUInt32 (result.get32 n) := by
  refine ⟨?_, ?_, ?_, ?_⟩
  · intro form hform
    obtain ⟨f, hlanes, hscalar⟩ := wideForms_action form hform
    refine (givesLanes_lanes hlanes).imp ?_
    rintro m x _ rfl n
    rw [Lanes.get64_zip64]
    exact gives_compute form.2 hscalar _ _
  · intro form hform
    obtain ⟨f, hlanes, hscalar⟩ := narrowForms_action form hform
    refine (givesLanes_lanes hlanes).imp ?_
    rintro m x _ rfl n
    rw [Lanes.get32_zip32]
    exact givesLow_compute form.2 hscalar _ _
  · intro form hform
    obtain ⟨f, hlanes, hscalar⟩ := wideShifts_action form hform
    refine (givesLanes_lanesBy hlanes).imp ?_
    rintro m x _ rfl n
    rw [Lanes.get64_map64]
    exact gives_compute form.2 hscalar _ _
  · intro form hform
    obtain ⟨f, hlanes, hscalar⟩ := narrowShifts_action form hform
    refine (givesLanes_lanesBy hlanes).imp ?_
    rintro m x _ rfl n
    rw [Lanes.get32_map32]
    exact givesLow_compute form.2 hscalar _ _

/-! ### Comparisons -/

/-- A comparison of lanes as numbers with signs, and the names of its instructions for both widths. -/
structure Comparison where
  wide : String
  narrow : String
  holds : Int → Int → Bool

def comparisons : List Comparison :=
  [⟨"vceqi64", "vceqi32", fun a b => a = b⟩, ⟨"vclti64", "vclti32", fun a b => a < b⟩,
    ⟨"vclei64", "vclei32", fun a b => a ≤ b⟩]

/-- The results of a comparison are one and zero. -/
theorem comparisons_action : ∀ test ∈ comparisons, ∃ f g,
    Action.all.lookup (Text.ofString test.wide) = some (.lanes (Lanes.zip64 f)) ∧
      Action.all.lookup (Text.ofString test.narrow) = some (.lanes (Lanes.zip32 g)) ∧
      (∀ a b, f a b = if test.holds a.toInt64.toInt b.toInt64.toInt then 1 else 0) ∧
      ∀ a b, g a b = if test.holds a.toInt32.toInt b.toInt32.toInt then 1 else 0 := by
  intro test htest
  simp only [comparisons, List.mem_cons, List.not_mem_nil, or_false] at htest
  rcases htest with rfl | rfl | rfl
  · refine ⟨_, _, rfl, rfl, ?_, ?_⟩
    · intro a b
      have hsame : a = b ↔ a.toInt64.toInt = b.toInt64.toInt := by
        constructor
        · rintro rfl
          rfl
        · intro h
          exact congrArg Int64.toUInt64 (Int64.toInt_inj.1 h)
      simp only [Arithmetic.flag64, hsame]
    · intro a b
      have hsame : a = b ↔ a.toInt32.toInt = b.toInt32.toInt := by
        constructor
        · rintro rfl
          rfl
        · intro h
          exact congrArg Int32.toUInt32 (Int32.toInt_inj.1 h)
      simp only [Arithmetic.flag32, hsame]
  · refine ⟨_, _, rfl, rfl, ?_, ?_⟩
    · intro a b
      simp only [Arithmetic.flag64, Arithmetic.less64, Int64.lt_iff_toInt_lt]
    · intro a b
      simp only [Arithmetic.flag32, Arithmetic.less32, Int32.lt_iff_toInt_lt]
  · refine ⟨_, _, rfl, rfl, ?_, ?_⟩
    · intro a b
      simp only [Arithmetic.flag64, Arithmetic.atMost64, Int64.le_iff_toInt_le]
    · intro a b
      simp only [Arithmetic.flag32, Arithmetic.atMost32, Int32.le_iff_toInt_le]

theorem lanes_of_comparisons : ∀ test ∈ comparisons,
    (GivesLanes σ test.wide fun m x result => ∀ n, result.get64 n =
      if test.holds ((m.registers.vector x.rs).get64 n).toInt64.toInt
        ((m.registers.vector x.rt).get64 n).toInt64.toInt then 1 else 0) ∧
    GivesLanes σ test.narrow fun m x result => ∀ n, result.get32 n =
      if test.holds ((m.registers.vector x.rs).get32 n).toInt32.toInt
        ((m.registers.vector x.rt).get32 n).toInt32.toInt then 1 else 0 := by
  intro test htest
  obtain ⟨f, g, hwide, hnarrow, hf, hg⟩ := comparisons_action test htest
  constructor
  · refine (givesLanes_lanes hwide).imp ?_
    rintro m x _ rfl n
    rw [Lanes.get64_zip64, hf]
  · refine (givesLanes_lanes hnarrow).imp ?_
    rintro m x _ rfl n
    rw [Lanes.get32_zip32, hg]

/-! ### Moves -/

/-- Lanes that are taken from a register in the order of the digits of a selector, modulo their number. -/
theorem lanes_of_shuffles :
    (GivesLanes σ "vshuf64" fun m x result => ∀ n k : Fin 4,
      k.val = (m.get x.rt).toNat / 16 ^ n.val % 16 % 4 →
        result.get64 n = (m.registers.vector x.rs).get64 k) ∧
    GivesLanes σ "vshuf32" fun m x result => ∀ n k : Fin 8,
      k.val = (m.get x.rt).toNat / 16 ^ n.val % 16 % 8 →
        result.get32 n = (m.registers.vector x.rs).get32 k := by
  constructor
  · refine (givesLanes_lanesBy (f := Lanes.shuffle64) rfl).imp ?_
    rintro m x _ rfl n k hk
    rw [Lanes.get64_shuffle64, Lanes.index64_digit _ hk]
  · refine (givesLanes_lanesBy (f := Lanes.shuffle32) rfl).imp ?_
    rintro m x _ rfl n k hk
    rw [Lanes.get32_shuffle32, Lanes.index32_digit _ hk]

/-- One lane that is replaced, its number taken modulo theirs. -/
theorem lanes_of_sets :
    (GivesLanes σ "vset64" fun m x result => ∀ n k : Fin 4, k.val = (m.get x.rt).toNat % 4 →
      result.get64 n = if n = k then m.get x.rs else (m.registers.vector x.rd).get64 n) ∧
    GivesLanes σ "vset32" fun m x result => ∀ n k : Fin 8, k.val = (m.get x.rt).toNat % 8 →
      result.get32 n = if n = k then (m.get x.rs).toUInt32 else (m.registers.vector x.rd).get32 n := by
  constructor
  · refine (givesLanes_replace (f := fun v n value => v.set64 (Lanes.index64 n) value) rfl).imp ?_
    rintro m x _ rfl n k hk
    obtain rfl : k = Lanes.index64 (m.get x.rt) := Fin.ext hk
    exact Lanes.get64_set64 _ _ n _
  · refine (givesLanes_replace (f := fun v n value => v.set32 (Lanes.index32 n) value.toUInt32) rfl).imp ?_
    rintro m x _ rfl n k hk
    obtain rfl : k = Lanes.index32 (m.get x.rt) := Fin.ext hk
    exact Lanes.get32_set32 _ _ n _

/-- All lanes set to one value, a register that is copied, and one that is inverted. -/
theorem lanes_of_copies :
    (GivesLanes σ "vbcst64" fun m x result => ∀ n, result.get64 n = m.get x.rs) ∧
    (GivesLanes σ "vbcst32" fun m x result => ∀ n, result.get32 n = (m.get x.rs).toUInt32) ∧
    (GivesLanes σ "vmov" fun m x result => result = m.registers.vector x.rs) ∧
    GivesLanes σ "vnot" fun m x result =>
      ∀ n, result.get64 n = ~~~(m.registers.vector x.rs).get64 n := by
  refine ⟨?_, ?_, ?_, ?_⟩
  · refine (givesLanes_broadcast (f := fun value => Lanes.of64 fun _ => value) rfl).imp ?_
    rintro m x _ rfl n
    exact Lanes.get64_of64 _ n
  · refine (givesLanes_broadcast (f := fun value => Lanes.of32 fun _ => value.toUInt32) rfl).imp ?_
    rintro m x _ rfl n
    exact Lanes.get32_of32 _ n
  · exact givesLanes_lanes (f := fun v _ => v) rfl
  · refine (givesLanes_lanes (f := fun v _ => v.map64 (~~~ ·)) rfl).imp ?_
    rintro m x _ rfl n
    exact Lanes.get64_map64 _ _ n

/-! ### Vectors in memory -/

/-- The names of the instructions that store and load a vector. -/
def storeName : Addressing → String
  | .offset => "vst"
  | .scaled => "vstx"

def loadName : Addressing → String
  | .offset => "vld"
  | .scaled => "vldx"

/-- A vector that is stored: the clock succeeds exactly if memory takes its bytes, and changes no register. -/
theorem ComesTo.clock_storeLanes {m : Machine σ} {form : Addressing} {x : Instruction}
    (h : m.ComesTo (storeName form) x) (hdone : m.clock.error = none) :
    m.memory.storeFault? (m.addressOf form Lanes.byteCount x)
        (m.registers.vector (movedRegister form x)).bytes.length = none ∧
      m.Leaves m.onward (m.memory.put (m.addressOf form Lanes.byteCount x)
        (m.registers.vector (movedRegister form x)).bytes) := by
  have haction : Action.all.lookup (Text.ofString (storeName form)) = some (.storeLanes form) := by
    cases form <;> rfl
  obtain ⟨log, hclock⟩ := h.clock_eq haction
  simp only [perform, storeLanes, storeBytes, addressOf_elsewhere, vector_elsewhere,
    memory_elsewhere] at hclock
  split at hclock
  · rw [hclock] at hdone
    cases hdone
  · rename_i hfault
    exact ⟨hfault, log, hclock⟩

/-- A vector is loaded from bytes that memory gives. -/
theorem ComesTo.leaves_loadLanes {m : Machine σ} {form : Addressing} {x : Instruction}
    (h : m.ComesTo (loadName form) x) {bytes : List UInt8}
    (hload : m.memory.load (m.addressOf form Lanes.byteCount x) Lanes.byteCount = .ok bytes) :
    m.Leaves (m.onward.setVector (movedRegister form x) (Lanes.ofBytes bytes)) m.memory := by
  have haction : Action.all.lookup (Text.ofString (loadName form)) = some (.loadLanes form) := by
    cases form <;> rfl
  refine h.leaves_setVector haction ?_
  intro log
  simp only [perform, loadLanes, addressOf_elsewhere, memory_elsewhere, hload]

/-- A vector that was stored stands in memory as its 32-bit lanes, and is loaded from there again. -/
theorem stored_vector_loads {m : Machine σ} {form : Addressing} {x : Instruction}
    (h : m.ComesTo (storeName form) x) (hapart : Memory.Apart m.memory.regions)
    (hbacked : m.memory.Backed) {r : Region}
    (hregion : m.memory.region? (m.addressOf form Lanes.byteCount x) = some r)
    (hreadable : r.access.allows Access.forRead = true) (hdone : m.clock.error = none) :
    ∃ after, m.Leaves m.onward after ∧
      (∀ n : Fin 8, after.loadNumber (m.addressOf form Lanes.byteCount x + UInt64.ofNat (4 * n.val)) 4 =
        .ok ((m.registers.vector (movedRegister form x)).get32 n).toUInt64) ∧
      ∀ (later : Machine σ) (other : Addressing) (y : Instruction), later.ComesTo (loadName other) y →
        later.memory = after →
        later.addressOf other Lanes.byteCount y = m.addressOf form Lanes.byteCount x →
        later.Leaves (later.onward.setVector (movedRegister other y)
          (m.registers.vector (movedRegister form x))) after := by
  obtain ⟨hfault, hleaves⟩ := h.clock_storeLanes hdone
  generalize m.addressOf form Lanes.byteCount x = addr at *
  generalize m.registers.vector (movedRegister form x) = v at *
  have hlength : v.bytes.length = 32 := v.length_bytes
  have hload : ∀ {k n : Nat}, 0 < n → k + n ≤ v.bytes.length →
      (m.memory.put addr v.bytes).load (addr + UInt64.ofNat k) n = .ok ((v.bytes.drop k).take n) :=
    fun hpos hreach => Memory.load_put hapart hbacked (by omega) hfault hregion hreadable hpos hreach
  refine ⟨_, hleaves, ?_, ?_⟩
  · intro n
    have hlane : UInt64.ofNat (v.get32 n).toNat = (v.get32 n).toUInt64 := by
      have hlt : (v.get32 n).toNat < UInt64.size := (v.get32 n).toNat_lt.trans (by decide)
      apply UInt64.toNat_inj.1
      rw [UInt64.toNat_ofNat_of_lt' hlt, UInt32.toNat_toUInt64]
    rw [Memory.loadNumber, hload (by omega) (by omega), v.bytes_lane]
    simp [Except.map, hlane]
  · intro later other y hcomes hmemory haddress
    have hwhole := hload (k := 0) (n := 32) (by omega) (by omega)
    have hhere : addr + UInt64.ofNat 0 = addr := UInt64.add_zero addr
    rw [hhere, List.drop_zero, List.take_of_length_le hlength.le] at hwhole
    have hagain : later.memory.load (later.addressOf other Lanes.byteCount y) Lanes.byteCount =
        .ok v.bytes := by
      rw [hmemory, haddress]
      exact hwhole
    have hvalue := hcomes.leaves_loadLanes hagain
    rwa [v.ofBytes_bytes, hmemory] at hvalue

/-- Vector instructions on integers are exact lane by lane, whatever registers they name. Each lane of the
    result is the value of the scalar instruction for the lanes of the operands, or the low word of it; it
    is one or zero by the comparison of the lanes as numbers with signs; it is the lane that a digit of the
    selector names, the value of a scalar register, a lane of the source or its complement, or, for the
    instruction that sets one lane, the lane as it was before. No other register changes, and no memory.
    A 64-bit lane is made up of two 32-bit lanes. A vector that is stored in a region that can be read, of
    a memory whose regions share no address, stands there as its 32-bit lanes and is loaded again. -/
theorem vectors_lane_by_lane :
    ((∀ form ∈ wideForms, GivesLanes σ form.1 fun m x result => ∀ n, Gives σ form.2
        ((m.registers.vector x.rs).get64 n) ((m.registers.vector x.rt).get64 n) (result.get64 n)) ∧
      (∀ form ∈ narrowForms, GivesLanes σ form.1 fun m x result => ∀ n, GivesLow σ form.2
        ((m.registers.vector x.rs).get32 n) ((m.registers.vector x.rt).get32 n) (result.get32 n)) ∧
      (∀ form ∈ wideShifts, GivesLanes σ form.1 fun m x result => ∀ n, Gives σ form.2
        ((m.registers.vector x.rs).get64 n) (m.get x.rt) (result.get64 n)) ∧
      ∀ form ∈ narrowShifts, GivesLanes σ form.1 fun m x result => ∀ n, GivesLow σ form.2
        ((m.registers.vector x.rs).get32 n) (m.get x.rt).toUInt32 (result.get32 n)) ∧
    (∀ test ∈ comparisons,
      (GivesLanes σ test.wide fun m x result => ∀ n, result.get64 n =
        if test.holds ((m.registers.vector x.rs).get64 n).toInt64.toInt
          ((m.registers.vector x.rt).get64 n).toInt64.toInt then 1 else 0) ∧
      GivesLanes σ test.narrow fun m x result => ∀ n, result.get32 n =
        if test.holds ((m.registers.vector x.rs).get32 n).toInt32.toInt
          ((m.registers.vector x.rt).get32 n).toInt32.toInt then 1 else 0) ∧
    ((GivesLanes σ "vshuf64" fun m x result => ∀ n k : Fin 4,
        k.val = (m.get x.rt).toNat / 16 ^ n.val % 16 % 4 →
          result.get64 n = (m.registers.vector x.rs).get64 k) ∧
      GivesLanes σ "vshuf32" fun m x result => ∀ n k : Fin 8,
        k.val = (m.get x.rt).toNat / 16 ^ n.val % 16 % 8 →
          result.get32 n = (m.registers.vector x.rs).get32 k) ∧
    ((GivesLanes σ "vset64" fun m x result => ∀ n k : Fin 4, k.val = (m.get x.rt).toNat % 4 →
        result.get64 n = if n = k then m.get x.rs else (m.registers.vector x.rd).get64 n) ∧
      GivesLanes σ "vset32" fun m x result => ∀ n k : Fin 8, k.val = (m.get x.rt).toNat % 8 →
        result.get32 n = if n = k then (m.get x.rs).toUInt32 else (m.registers.vector x.rd).get32 n) ∧
    ((GivesLanes σ "vbcst64" fun m x result => ∀ n, result.get64 n = m.get x.rs) ∧
      (GivesLanes σ "vbcst32" fun m x result => ∀ n, result.get32 n = (m.get x.rs).toUInt32) ∧
      (GivesLanes σ "vmov" fun m x result => result = m.registers.vector x.rs) ∧
      GivesLanes σ "vnot" fun m x result =>
        ∀ n, result.get64 n = ~~~(m.registers.vector x.rs).get64 n) ∧
    (∀ (v : Lanes) (n : Fin 4), (v.get64 n).toNat =
      (v.get32 (Lanes.lower n)).toNat + 2 ^ 32 * (v.get32 (Lanes.upper n)).toNat) ∧
    ∀ (m : Machine σ) (form : Addressing) (x : Instruction) (r : Region),
      m.ComesTo (storeName form) x → Memory.Apart m.memory.regions → m.memory.Backed →
      m.memory.region? (m.addressOf form Lanes.byteCount x) = some r →
      r.access.allows Access.forRead = true → m.clock.error = none →
      ∃ after, m.Leaves m.onward after ∧
        (∀ n : Fin 8, after.loadNumber (m.addressOf form Lanes.byteCount x + UInt64.ofNat (4 * n.val)) 4 =
          .ok ((m.registers.vector (movedRegister form x)).get32 n).toUInt64) ∧
        ∀ (later : Machine σ) (other : Addressing) (y : Instruction), later.ComesTo (loadName other) y →
          later.memory = after →
          later.addressOf other Lanes.byteCount y = m.addressOf form Lanes.byteCount x →
          later.Leaves (later.onward.setVector (movedRegister other y)
            (m.registers.vector (movedRegister form x))) after := by
  refine ⟨lanes_of_scalars, lanes_of_comparisons, lanes_of_shuffles, lanes_of_sets, lanes_of_copies,
    Lanes.toNat_get64, ?_⟩
  intro m form x r h hapart hbacked hregion hreadable hdone
  exact stored_vector_loads h hapart hbacked hregion hreadable hdone

/-- A machine that turns the lanes of a register around in place, and next to that stores the register. -/
def turning : Machine Disk where
  files := Files.fresh {} {}
  memory := { regions := [
    Region.make (Text.ofString "text") Segment.textBase 8 Access.rx
      (Bytes.ofList ([Word.ofR 1 0x058 1 1 3, Word.ofI 0x3d 1 2 0].flatMap fun w =>
        Bytes.ofNat 4 w.toNat)),
    Region.make (Text.ofString "data") Segment.dataBase 32 Access.rw ByteArray.empty] }
  registers := { (({} : Registers).set 2 Segment.dataBase).set 3 0x01234567 with
    vectors := Vector.replicate 32 (Lanes.of32 fun n => UInt32.ofNat n.val) }

theorem vectors_lane_by_lane_turning :
    (∃ result, (∀ n k : Fin 8, k.val = 7 - n.val → result.get32 n = UInt32.ofNat k.val) ∧
      (turning.goTo Segment.textBase).Leaves
        ((turning.goTo Segment.textBase).onward.setVector 1 result) turning.memory) ∧
    ∃ after, (turning.goTo (Segment.textBase + 4)).Leaves
        (turning.goTo (Segment.textBase + 4)).onward after ∧
      after.loadNumber (Segment.dataBase + 28) 4 = .ok 7 := by
  have hturns : (turning.goTo Segment.textBase).ComesTo "vshuf32"
      { mnemonic := Mnemonic.vector "vshuf32" 0x058 [.vd, .vs, .rt], rd := 1, rs := 1, rt := 3 } :=
    ⟨⟨rfl, rfl⟩, ⟨_, rfl, Word.ofR 1 0x058 1 1 3, rfl⟩, rfl⟩
  have hstores : (turning.goTo (Segment.textBase + 4)).ComesTo (storeName .offset)
      { mnemonic := Mnemonic.short "vst" 0x3d .signed [.vt, .mem], rt := 1, rs := 2 } :=
    ⟨⟨rfl, rfl⟩, ⟨_, rfl, Word.ofI 0x3d 1 2 0, rfl⟩, rfl⟩
  obtain ⟨-, -, ⟨-, hshuffle⟩, -, -, -, hstored⟩ := vectors_lane_by_lane (σ := Disk)
  obtain ⟨result, hlanes, hleaves⟩ := hshuffle _ _ hturns
  have hapart : Memory.Apart turning.memory.regions := by
    simp only [Memory.Apart, turning]
    decide +kernel
  have hbacked : turning.memory.Backed := by
    simp only [Memory.Backed, Buffer.Backed, turning]
    decide +kernel
  obtain ⟨after, hafter, hloads, -⟩ := hstored _ .offset _
    (Region.make (Text.ofString "data") Segment.dataBase 32 Access.rw ByteArray.empty) hstores hapart
    hbacked rfl (by decide) rfl
  have hdigits : ∀ n : Fin 8, 7 - n.val = 0x01234567 / 16 ^ n.val % 16 % 8 := by decide
  refine ⟨⟨result, ?_, hleaves⟩, after, hafter, hloads 7⟩
  intro n k hk
  rw [hlanes n k (hk.trans (hdigits n))]
  exact Lanes.get32_of32 (fun n => UInt32.ofNat n.val) k

end Machine

end VectorRisc
