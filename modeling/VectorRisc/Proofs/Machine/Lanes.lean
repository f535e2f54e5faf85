/-
Module: VectorRisc.Proofs.Machine.Lanes
Layer: Proofs
Purpose: The lanes of a vector register. Either view of a register reads back what it was built from, a
  64-bit lane is made up of two 32-bit lanes, and the bytes of a register are those of its 32-bit lanes.
Imports: Mathlib.Tactic, VectorRisc.Machine.Lanes, VectorRisc.Proofs.Bytes
Trusted boundary: none
Main exports: Lanes.get32_of32, Lanes.get64_of64, Lanes.toNat_get64, Lanes.get32_set32, Lanes.get64_set64,
  Lanes.length_bytes, Lanes.bytes_lane, Lanes.ofBytes_bytes
Open obligations: none
-/
import Mathlib.Tactic
import VectorRisc.Machine.Lanes
import VectorRisc.Proofs.Bytes

namespace VectorRisc

namespace Lanes

/-! ### The two views -/

@[simp] theorem get32_of32 (f : Fin 8 → UInt32) (n : Fin 8) : (of32 f).get32 n = f n := by
  simp [get32, of32]

/-- A register is known by its 32-bit lanes. -/
theorem ext {v w : Lanes} (h : ∀ n, v.get32 n = w.get32 n) : v = w := by
  obtain ⟨v⟩ := v
  obtain ⟨w⟩ := w
  refine congrArg Lanes.mk (Vector.ext ?_)
  intro i hi
  exact h ⟨i, hi⟩

/-- A 64-bit lane is made up of two 32-bit lanes, the lower one first. -/
theorem toNat_get64 (v : Lanes) (n : Fin 4) :
    (v.get64 n).toNat = (v.get32 (lower n)).toNat + 2 ^ 32 * (v.get32 (upper n)).toNat := by
  have hlow := (v.get32 (lower n)).toNat_lt
  have hhigh := (v.get32 (upper n)).toNat_lt
  have hshift : ((v.get32 (upper n)).toUInt64 <<< 32).toNat = (v.get32 (upper n)).toNat <<< 32 := by
    rw [UInt64.toNat_shiftLeft, UInt32.toNat_toUInt64]
    exact Nat.mod_eq_of_lt (by rw [show (32 : UInt64).toNat % 64 = 32 from rfl, Nat.shiftLeft_eq]; omega)
  rw [get64, UInt64.toNat_or, hshift, UInt32.toNat_toUInt64, Nat.or_comm,
    ← Nat.shiftLeft_add_eq_or_of_lt hlow, Nat.shiftLeft_eq]
  omega

@[simp] theorem half_lower (value : UInt64) (n : Fin 4) : half value (lower n) = value.toUInt32 := by
  simp [half, lower]

@[simp] theorem half_upper (value : UInt64) (n : Fin 4) :
    half value (upper n) = (value >>> 32).toUInt32 := by
  simp [half, upper]

@[simp] theorem whole_lower (n : Fin 4) : whole (lower n) = n := by
  simp [whole, lower]

@[simp] theorem whole_upper (n : Fin 4) : whole (upper n) = n := by
  apply Fin.ext
  simp only [whole, upper]
  omega

@[simp] theorem get64_of64 (f : Fin 4 → UInt64) (n : Fin 4) : (of64 f).get64 n = f n := by
  have hlt := (f n).toNat_lt
  have hlow : (f n).toUInt32.toNat = (f n).toNat % 2 ^ 32 := UInt64.toNat_toUInt32 _
  have hhigh : ((f n) >>> 32).toUInt32.toNat = (f n).toNat / 2 ^ 32 := by
    rw [UInt64.toNat_toUInt32, UInt64.toNat_shiftRight, show (32 : UInt64).toNat % 64 = 32 from rfl,
      Nat.shiftRight_eq_div_pow]
    omega
  apply UInt64.toNat_inj.1
  rw [toNat_get64, of64, get32_of32, get32_of32, half_lower, half_upper, whole_lower, whole_upper, hlow,
    hhigh]
  omega

/-! ### Lane by lane -/

variable (f : UInt32 → UInt32 → UInt32) (g : UInt64 → UInt64 → UInt64) (v w : Lanes)

@[simp] theorem get32_zip32 (n : Fin 8) : (zip32 f v w).get32 n = f (v.get32 n) (w.get32 n) :=
  get32_of32 _ n

@[simp] theorem get64_zip64 (n : Fin 4) : (zip64 g v w).get64 n = g (v.get64 n) (w.get64 n) :=
  get64_of64 _ n

@[simp] theorem get32_map32 (f : UInt32 → UInt32) (n : Fin 8) : (v.map32 f).get32 n = f (v.get32 n) :=
  get32_of32 _ n

@[simp] theorem get64_map64 (g : UInt64 → UInt64) (n : Fin 4) : (v.map64 g).get64 n = g (v.get64 n) :=
  get64_of64 _ n

@[simp] theorem get32_set32 (n k : Fin 8) (value : UInt32) :
    (v.set32 n value).get32 k = if k = n then value else v.get32 k :=
  get32_of32 _ k

@[simp] theorem get64_set64 (n k : Fin 4) (value : UInt64) :
    (v.set64 n value).get64 k = if k = n then value else v.get64 k :=
  get64_of64 _ k

/-- The lanes in the order of the digits of a selector. -/
@[simp] theorem get32_shuffle32 (selector : UInt64) (n : Fin 8) :
    (v.shuffle32 selector).get32 n = v.get32 (index32 (selector >>> UInt64.ofNat (4 * n.val))) :=
  get32_of32 _ n

@[simp] theorem get64_shuffle64 (selector : UInt64) (n : Fin 4) :
    (v.shuffle64 selector).get64 n = v.get64 (index64 (selector >>> UInt64.ofNat (4 * n.val))) :=
  get64_of64 _ n

/-! ### Bytes -/

/-- A chunk of a concatenation of chunks of one length. -/
theorem take_drop_flatMap {α β : Type} {chunk : α → List β} {k : Nat} (hlength : ∀ a, (chunk a).length = k)
    {list : List α} {n : Nat} (hn : n < list.length) :
    ((list.flatMap chunk).drop (k * n)).take k = chunk list[n] := by
  induction list generalizing n with
  | nil => cases hn
  | cons a rest ih =>
      rw [List.flatMap_cons]
      cases n with
      | zero =>
          rw [Nat.mul_zero, List.drop_zero, ← hlength a, List.take_left]
          rfl
      | succ n =>
          have hskip : k * (n + 1) = (chunk a).length + k * n := by
            rw [hlength, Nat.mul_succ, Nat.add_comm]
          rw [hskip, List.drop_append, List.drop_eq_nil_of_le (by omega), Nat.add_sub_cancel_left,
            List.nil_append]
          exact ih (Nat.lt_of_succ_lt_succ hn)

theorem length_bytes : v.bytes.length = byteCount := by
  simp [bytes, byteCount, List.length_flatMap]

/-- The bytes of a 32-bit lane stand at its place. -/
theorem bytes_lane (n : Fin 8) :
    (v.bytes.drop (4 * n.val)).take 4 = Bytes.ofNat 4 (v.get32 n).toNat := by
  have hn : n.val < v.words.toList.length := by simp
  rw [bytes, take_drop_flatMap (fun w => Bytes.length_ofNat 4 w.toNat) hn]
  simp [get32]

/-- A register is read back from its bytes. -/
theorem ofBytes_bytes : ofBytes v.bytes = v := by
  apply ext
  intro n
  rw [ofBytes, get32_of32, bytes_lane, Bytes.toNat_ofNat_uint32, UInt32.ofNat_toNat]

end Lanes

end VectorRisc
