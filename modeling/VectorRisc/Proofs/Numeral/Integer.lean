/-
Module: VectorRisc.Proofs.Numeral.Integer
Layer: Proofs
Purpose: Integers that are written are read back. Digits are read as the number they were written for
  if it is within the limit and are refused as too large otherwise, and a 64-bit number in decimal or
  behind the mark of hexadecimal is read as its pattern. A number of more bits is not read back, nor is a
  text that starts with neither a digit, a sign nor a quote.
Imports: Mathlib.Tactic, VectorRisc.Numeral.Integer
Trusted boundary: none
Main exports: Numeral.readDigits_natural, Numeral.natural_injective, Numeral.readUnsigned_natural,
  Numeral.readUnsigned_marked, Numeral.number?_decimal, Numeral.number?_marked,
  Numeral.number?_decimal_eq_none, Numeral.exists_readUnsigned_eq_error
Open obligations: none
-/
import Mathlib.Tactic
import VectorRisc.Numeral.Integer

namespace VectorRisc

namespace Numeral

/-! ### Digits -/

theorem digitValue?_digitChar : ∀ d < 16, digitValue? (ascii (Nat.digitChar d)) = some d := by decide

/-- No digit is taken for a separator, a sign, a quote or, unless it is one, for the zero of a mark. -/
theorem digitChar_ne : ∀ d < 16, ascii (Nat.digitChar d) ∉ ['_', '+', '-', '\''].map ascii ∧
    (0 < d → ascii (Nat.digitChar d) ≠ ascii '0') := by
  decide

section Written

variable {base : Nat} (hbase : 1 < base)
include hbase

/-- The last digit stands behind the digits of the quotient. -/
theorem natural_eq (n : Nat) :
    natural base n =
      if n < base then [ascii (Nat.digitChar n)]
      else natural base (n / base) ++ [ascii (Nat.digitChar (n % base))] := by
  rw [natural, Nat.toDigits_eq_if hbase]
  split
  · rfl
  · rw [List.map_append]
    rfl

theorem natural_ne_nil (n : Nat) : natural base n ≠ [] := by
  rw [natural_eq hbase]
  split <;> simp

variable (hsixteen : base ≤ 16)
include hsixteen

theorem exists_digit_of_mem_natural (n : Nat) {b : UInt8} (hb : b ∈ natural base n) :
    ∃ d < 16, b = ascii (Nat.digitChar d) := by
  induction n using Nat.strongRecOn with
  | ind n ih =>
      rw [natural_eq hbase] at hb
      split at hb
      · rename_i hlt
        exact ⟨n, by omega, List.mem_singleton.1 hb⟩
      · rename_i hge
        rcases List.mem_append.1 hb with hb | hb
        · exact ih (n / base) (Nat.div_lt_self (by omega) hbase) hb
        · have hlt := Nat.mod_lt n (by omega : 0 < base)
          exact ⟨n % base, by omega, List.mem_singleton.1 hb⟩

theorem notMem_of_mem_natural (n : Nat) {b : UInt8} (hb : b ∈ natural base n) :
    b ∉ ['_', '+', '-', '\''].map ascii := by
  obtain ⟨d, hd, rfl⟩ := exists_digit_of_mem_natural hbase hsixteen n hb
  exact (digitChar_ne d hd).1

/-- A number that is not zero starts with a digit that is not zero. -/
theorem head?_natural {n : Nat} (hn : 0 < n) : (natural base n).head? ≠ some (ascii '0') := by
  induction n using Nat.strongRecOn with
  | ind n ih =>
      rw [natural_eq hbase]
      split
      · rename_i hlt
        simpa using (digitChar_ne n (by omega)).2 hn
      · rename_i hge
        have hquotient : 0 < n / base := Nat.div_pos (by omega) (by omega)
        rw [List.head?_append_of_ne_nil _ (natural_ne_nil hbase _)]
        exact ih (n / base) (Nat.div_lt_self hn hbase) hquotient

/-! ### Reading digits -/

variable (limit : Nat) (underscores : Bool)

theorem readDigits_digit {d : Nat} (hd : d < base) (value : Nat) (rest : Text) :
    readDigits base limit underscores value (ascii (Nat.digitChar d) :: rest) =
      if limit < value * base + d then .error .outOfRange
      else readDigits base limit underscores (value * base + d) rest := by
  have hnot : ascii (Nat.digitChar d) ≠ ascii '_' := fun h =>
    (digitChar_ne d (by omega)).1 (by simp [h])
  rw [readDigits, if_neg (by simp [hnot]), digitValue?_digitChar d (by omega)]
  simp only [if_neg (by omega : ¬base ≤ d)]

/-- The digits of a number are read as the number, or as too large. -/
theorem readDigits_natural (n : Nat) (rest : Text) :
    readDigits base limit underscores 0 (natural base n ++ rest) =
      if limit < n then .error .outOfRange else readDigits base limit underscores n rest := by
  induction n using Nat.strongRecOn generalizing rest with
  | ind n ih =>
      rw [natural_eq hbase]
      split
      · rename_i hlt
        rw [List.singleton_append, readDigits_digit hbase hsixteen limit underscores hlt, Nat.zero_mul,
          Nat.zero_add]
      · rename_i hge
        have hlt := Nat.mod_lt n (by omega : 0 < base)
        have hvalue : n / base * base + n % base = n := Nat.div_add_mod' n base
        have hle : n / base ≤ n := Nat.div_le_self n base
        rw [List.append_assoc, ih (n / base) (Nat.div_lt_self (by omega) hbase), List.singleton_append,
          readDigits_digit hbase hsixteen limit underscores hlt, hvalue]
        -- digits that are too large stay so with one more
        split
        · rename_i hout
          rw [if_pos (by omega)]
        · rfl

end Written

/-! ### Numerals -/

/-- Without a zero in front a numeral is decimal. -/
theorem splitBase_of_head? {t : Text} (h : t.head? ≠ some (ascii '0')) : splitBase t = (10, t) := by
  cases t with
  | nil => rfl
  | cons z rest =>
      have hz : z ≠ ascii '0' := by simpa using h
      cases rest with
      | nil => simp [splitBase, hz]
      | cons m rest => cases rest <;> simp [splitBase, hz]

/-- Without underscores a numeral is its digits in its base. -/
theorem readUnsigned_eq {t digits : Text} {base : Nat} (hne : t ≠ []) (hsplit : splitBase t = (base, digits))
    (hplain : ascii '_' ∉ digits) : readUnsigned t = readDigits base unsignedMax true 0 digits := by
  have hcontains : digits.contains (ascii '_') = false := by simpa using hplain
  rw [readUnsigned, if_neg (by simpa using hne), hsplit]
  simp only [hcontains, Bool.false_and, Bool.false_eq_true, if_false]
  cases readDigits base unsignedMax true 0 digits <;> rfl

theorem underscore_notMem_natural {base : Nat} (hbase : 1 < base) (hsixteen : base ≤ 16) (n : Nat) :
    ascii '_' ∉ natural base n := fun hmem =>
  notMem_of_mem_natural hbase hsixteen n hmem (by simp)

/-- The digits of a number that is read to their end. -/
theorem readDigits_natural_end {base : Nat} (hbase : 1 < base) (hsixteen : base ≤ 16) (limit : Nat)
    (underscores : Bool) (n : Nat) :
    readDigits base limit underscores 0 (natural base n) =
      if limit < n then .error .outOfRange else .ok n := by
  have h := readDigits_natural hbase hsixteen limit underscores n []
  rw [List.append_nil] at h
  rw [h, readDigits]

/-- No two numbers have the same digits. -/
theorem natural_injective {base : Nat} (hbase : 1 < base) (hsixteen : base ≤ 16) :
    Function.Injective (natural base) := by
  intro m n h
  have hm := readDigits_natural_end hbase hsixteen (max m n) false m
  have hn := readDigits_natural_end hbase hsixteen (max m n) false n
  rw [if_neg (by omega)] at hm hn
  rw [h, hn] at hm
  exact (Except.ok.inj hm).symm

theorem readPlain_natural {limit n : Nat} (h : n ≤ limit) : readPlain limit (natural 10 n) = .ok n := by
  have hne := natural_ne_nil (by norm_num : 1 < 10) n
  rw [readPlain, if_neg (by simpa using hne), readDigits_natural_end (by norm_num) (by norm_num),
    if_neg (by omega)]

/-- A decimal number is read as itself if it has 64 bits, and is too large otherwise. -/
theorem readUnsigned_natural (n : Nat) :
    readUnsigned (natural 10 n) = if unsignedMax < n then .error .outOfRange else .ok n := by
  rcases Nat.eq_zero_or_pos n with rfl | hn
  · rfl
  · have hbase : 1 < 10 := by norm_num
    have hsixteen : 10 ≤ 16 := by norm_num
    rw [readUnsigned_eq (natural_ne_nil hbase n) (splitBase_of_head? (head?_natural hbase hsixteen hn))
      (underscore_notMem_natural hbase hsixteen n), readDigits_natural_end hbase hsixteen]

/-- The same of a hexadecimal number behind its mark. -/
theorem readUnsigned_marked (n : Nat) :
    readUnsigned (marked n) = if unsignedMax < n then .error .outOfRange else .ok n := by
  have hbase : 1 < 16 := by norm_num
  have hmarked : marked n = ascii '0' :: ascii 'x' :: natural 16 n := rfl
  have hsplit : splitBase (marked n) = (16, natural 16 n) := by
    obtain ⟨d, rest, hdigits⟩ := List.exists_cons_of_ne_nil (natural_ne_nil hbase n)
    rw [hmarked, hdigits, splitBase, if_pos rfl]
    rfl
  rw [readUnsigned_eq (by simp [hmarked]) hsplit (underscore_notMem_natural hbase le_rfl n),
    readDigits_natural_end hbase le_rfl]

section Plain

variable {t : Text} {b : UInt8} (hhead : t.head? = some b)
  (hplain : b ∉ ['+', '-', '\''].map ascii)
include hhead hplain

theorem looksLikeChar_of_plain : Literal.looksLikeChar t = false := by
  simp only [List.map_cons, List.map_nil, List.mem_cons, List.not_mem_nil, or_false, not_or] at hplain
  simp [Literal.looksLikeChar, hhead, hplain.2.2]

/-- A numeral without a sign is signed if it is within the signed numbers. -/
theorem readSigned_of_plain :
    readSigned t =
      match readUnsigned t with
      | .error e => .error e
      | .ok n => if n < signedLimit then .ok (n : Int) else .error .outOfRange := by
  simp only [List.map_cons, List.map_nil, List.mem_cons, List.not_mem_nil, or_false, not_or] at hplain
  obtain ⟨hplus, hminus, -⟩ := hplain
  simp only [readSigned, hhead, Option.some.injEq, hplus, hminus, decide_false, Bool.or_self,
    Bool.false_eq_true, if_false]
  cases readUnsigned t with
  | error e => cases e <;> rfl
  | ok n => rfl

/-- An unsigned numeral stands for its pattern, also where it is no signed one. -/
theorem number?_of_readUnsigned {n : Nat} (h : readUnsigned t = .ok n) :
    number? t = some (Int64.ofNat n) := by
  rw [number?, looksLikeChar_of_plain hhead hplain, if_neg Bool.false_ne_true,
    readSigned_of_plain hhead hplain, h]
  dsimp only
  by_cases hn : n < signedLimit
  · rw [if_pos hn]
    rfl
  · rw [if_neg hn]

/-- What is no unsigned numeral is no number, if no sign or quote makes it one. -/
theorem number?_eq_none_of_readUnsigned {e : Fault} (h : readUnsigned t = .error e) : number? t = none := by
  rw [number?, looksLikeChar_of_plain hhead hplain, if_neg Bool.false_ne_true,
    readSigned_of_plain hhead hplain, h]

end Plain

/-- A negative number in decimal is a signed numeral if it is within the signed numbers. -/
theorem readSigned_negative (n : Nat) :
    readSigned (decimal (.negSucc n)) =
      if n + 1 ≤ signedLimit then .ok (.negSucc n) else .error .outOfRange := by
  have hnegative : (ascii '-' :: natural 10 (n + 1)).head? = some (ascii '-') := rfl
  simp only [readSigned, decimal, hnegative, decide_true, Bool.true_or, if_true, List.tail_cons,
    readUnsigned_natural]
  by_cases hlarge : unsignedMax < n + 1
  · have hfar : ¬n + 1 ≤ signedLimit := by
      simp only [unsignedMax] at hlarge
      simp only [signedLimit]
      omega
    rw [if_pos hlarge, if_neg hfar]
  · rw [if_neg hlarge]
    rfl

theorem looksLikeChar_negative (n : Nat) : Literal.looksLikeChar (decimal (.negSucc n)) = false := by
  simp [Literal.looksLikeChar, decimal, show ascii '-' ≠ ascii '\'' by decide]

/-- Decimal digits start with neither a sign nor a quote. -/
theorem exists_head?_natural (n : Nat) :
    ∃ b, (natural 10 n).head? = some b ∧ b ∉ ['+', '-', '\''].map ascii := by
  have hbase : 1 < 10 := by norm_num
  have hsixteen : 10 ≤ 16 := by norm_num
  obtain ⟨b, rest, hdigits⟩ := List.exists_cons_of_ne_nil (natural_ne_nil hbase n)
  refine ⟨b, by rw [hdigits]; rfl, ?_⟩
  exact List.not_mem_of_not_mem_cons (notMem_of_mem_natural hbase hsixteen n (hdigits ▸ List.mem_cons_self))

/-- A signed or unsigned 64-bit number in decimal is read as its pattern. -/
theorem number?_decimal {v : Int} (hleast : -2 ^ 63 ≤ v) (hmost : v < 2 ^ 64) :
    number? (decimal v) = some (Int64.ofInt v) := by
  cases v with
  | ofNat n =>
      have hread : readUnsigned (decimal (.ofNat n)) = .ok n := by
        have hn : ¬unsignedMax < n := by
          simp only [Int.ofNat_eq_natCast] at hmost
          simp only [unsignedMax]
          omega
        rw [decimal, readUnsigned_natural, if_neg hn]
      obtain ⟨b, hhead, hplain⟩ := exists_head?_natural n
      exact number?_of_readUnsigned hhead hplain hread
  | negSucc n =>
      have hn : n + 1 ≤ signedLimit := by
        simp only [signedLimit]
        omega
      rw [number?, looksLikeChar_negative, if_neg Bool.false_ne_true, readSigned_negative, if_pos hn]

/-- And a hexadecimal one behind its mark. -/
theorem number?_marked {n : Nat} (h : n < 2 ^ 64) : number? (marked n) = some (Int64.ofNat n) := by
  have hread : readUnsigned (marked n) = .ok n := by
    have hn : ¬unsignedMax < n := by
      simp only [unsignedMax]
      omega
    rw [readUnsigned_marked, if_neg hn]
  exact number?_of_readUnsigned (b := ascii '0') rfl (by decide) hread

/-- What is no digit of ten is worth ten at least, if it is a digit at all. -/
theorem le_of_digitValue? {b : UInt8} (hb : Text.isDigit b = false) {d : Nat} (h : digitValue? b = some d) :
    10 ≤ d := by
  simp only [digitValue?, hb, Bool.false_eq_true, if_false] at h
  split at h
  · rename_i hlower
    have hleast : ascii 'a' ≤ b := by simpa using (Bool.and_eq_true_iff.1 hlower).1
    have hvalue : (ascii 'a').toNat ≤ b.toNat := UInt8.le_iff_toNat_le.1 hleast
    have ha : (ascii 'a').toNat = 97 := rfl
    have hd := Option.some.inj h
    omega
  · split at h
    · rename_i hupper
      have hleast : ascii 'A' ≤ b := by simpa using (Bool.and_eq_true_iff.1 hupper).1
      have hvalue : (ascii 'A').toNat ≤ b.toNat := UInt8.le_iff_toNat_le.1 hleast
      have ha : (ascii 'A').toNat = 65 := rfl
      have hd := Option.some.inj h
      omega
    · cases h

/-- A numeral starts with a digit, if no sign comes first. -/
theorem exists_readUnsigned_eq_error {b : UInt8} (hb : Text.isDigit b = false) (rest : Text) :
    ∃ e, readUnsigned (b :: rest) = .error e := by
  have hzero : b ≠ ascii '0' := by
    rintro rfl
    cases hb
  have hsplit : splitBase (b :: rest) = (10, b :: rest) := splitBase_of_head? (by simpa using hzero)
  simp only [readUnsigned, List.isEmpty_cons, Bool.false_eq_true, if_false, hsplit]
  by_cases hunderscore : b = ascii '_'
  · subst hunderscore
    have hplaced : underscoresPlaced (ascii '_' :: rest) = false := by cases rest <;> rfl
    have hcontains : (ascii '_' :: rest).contains (ascii '_') = true := by simp
    rw [hcontains, hplaced]
    cases readDigits 10 unsignedMax true 0 (ascii '_' :: rest) with
    | error e => exact ⟨e, rfl⟩
    | ok v => exact ⟨.malformed, rfl⟩
  · have hdigits : readDigits 10 unsignedMax true 0 (b :: rest) = .error .malformed := by
      rw [readDigits, if_neg (by simpa using hunderscore)]
      cases hvalue : digitValue? b with
      | none => rfl
      | some d =>
          dsimp only
          rw [if_pos (le_of_digitValue? hb hvalue)]
    rw [hdigits]
    exact ⟨.malformed, rfl⟩

/-- A number that has no 64-bit pattern is not read back. -/
theorem number?_decimal_eq_none {v : Int} (h : v < -2 ^ 63 ∨ 2 ^ 64 ≤ v) : number? (decimal v) = none := by
  cases v with
  | ofNat n =>
      have hread : readUnsigned (decimal (.ofNat n)) = .error .outOfRange := by
        have hn : unsignedMax < n := by
          simp only [Int.ofNat_eq_natCast] at h
          simp only [unsignedMax]
          omega
        rw [decimal, readUnsigned_natural, if_pos hn]
      obtain ⟨b, hhead, hplain⟩ := exists_head?_natural n
      exact number?_eq_none_of_readUnsigned hhead hplain hread
  | negSucc n =>
      have hn : ¬n + 1 ≤ signedLimit := by
        simp only [signedLimit]
        omega
      obtain ⟨e, hunsigned⟩ := exists_readUnsigned_eq_error (b := ascii '-') rfl (natural 10 (n + 1))
      rw [number?, looksLikeChar_negative, if_neg Bool.false_ne_true, readSigned_negative, if_neg hn]
      dsimp only
      rw [decimal, hunsigned]

end Numeral

end VectorRisc
