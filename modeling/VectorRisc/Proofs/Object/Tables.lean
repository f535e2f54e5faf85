/-
Module: VectorRisc.Proofs.Object.Tables
Layer: Proofs
Purpose: The relocation and symbol tables of object files are read back as they were written, and a table
  that can be read takes at least the bytes that its entries are written with.
Imports: VectorRisc.Object.Codec, VectorRisc.Proofs.Bytes
Trusted boundary: none
Main exports: ObjectFile.RelocationFits, ObjectFile.SymbolFits, ObjectFile.readTable_tableBytes,
  ObjectFile.readRelocation_eq_ok, ObjectFile.readSymbol_eq_ok, ObjectFile.readTable_eq_ok
Open obligations: none
-/
import VectorRisc.Object.Codec
import VectorRisc.Proofs.Bytes

namespace VectorRisc

namespace ObjectFile

/-- The fields of a relocation fit their places in a table. -/
structure RelocationFits (r : Relocation) : Prop where
  kind : r.kind.code ≤ RelocationKind.greatest
  scope : r.scope.code ≤ Scope.greatest
  label : r.label.length < 2 ^ 32

/-- The fields of a symbol fit their places in a table. -/
structure SymbolFits (s : Symbol) : Prop where
  kind : s.kind.code ≤ SymbolKind.greatest
  scope : s.scope.code ≤ Scope.greatest
  label : s.label.length < 2 ^ 32

/-! ### Fields -/

/-- As many bytes as are asked for are taken from the front. -/
theorem take?_append {n : Nat} {head : List UInt8} (rest : List UInt8) (h : head.length = n) :
    take? n (head ++ rest) = some (head, rest) := by
  subst h
  simp [take?]

/-- What is taken from the front stands there. -/
theorem take?_eq_some {n : Nat} {bytes head rest : List UInt8} (h : take? n bytes = some (head, rest)) :
    head.length = n ∧ bytes = head ++ rest := by
  simp only [take?] at h
  split at h
  · rename_i hlen
    obtain ⟨rfl, rfl⟩ := Prod.mk.inj (Option.some.inj h)
    exact ⟨hlen, (List.take_append_drop n bytes).symm⟩
  · cases h

/-- A number is read back from the bytes it was written with. -/
theorem number?_append (width : Nat) {n : Nat} (rest : List UInt8) (h : n < 256 ^ width) :
    number? width (Bytes.ofNat width n ++ rest) = some (n, rest) := by
  rw [number?, take?_append rest (Bytes.length_ofNat width n)]
  simp [Bytes.toNat_ofNat_of_lt h]

/-- A number that is read fits its width, and the bytes it was read from are gone. -/
theorem number?_eq_some {width n : Nat} {bytes rest : List UInt8}
    (h : number? width bytes = some (n, rest)) :
    n < 256 ^ width ∧ bytes.length = width + rest.length := by
  obtain ⟨⟨head, tail⟩, htake, hpair⟩ := Option.map_eq_some_iff.1 h
  obtain ⟨rfl, rfl⟩ := Prod.mk.inj hpair
  obtain ⟨hlen, rfl⟩ := take?_eq_some htake
  refine ⟨?_, ?_⟩
  · rw [← hlen]
    exact Bytes.toNat_lt head
  · rw [List.length_append, hlen]

/-- A label is read back from the bytes it was written with. -/
theorem label?_append {label : Text} (rest : List UInt8) (h : label.length < 2 ^ 32) :
    label? (labelBytes label ++ rest) = some (label, rest) := by
  have hfit : label.length < 256 ^ 4 := h
  rw [labelBytes, List.append_assoc, label?, number?_append 4 _ hfit]
  exact take?_append rest rfl

theorem length_labelBytes (label : Text) : (labelBytes label).length = 4 + label.length := by
  simp [labelBytes]

/-- A label that is read has a length of 32 bits, and the bytes it was written with are gone. -/
theorem label?_eq_some {label : Text} {bytes rest : List UInt8}
    (h : label? bytes = some (label, rest)) :
    label.length < 2 ^ 32 ∧ bytes.length = (labelBytes label).length + rest.length := by
  obtain ⟨⟨length, tail⟩, hnumber, htake⟩ := Option.bind_eq_some_iff.1 h
  obtain ⟨hbound, hlen⟩ := number?_eq_some hnumber
  obtain ⟨rfl, rfl⟩ := take?_eq_some htake
  refine ⟨hbound, ?_⟩
  rw [hlen, length_labelBytes, List.length_append]
  omega

/-! ### Entries -/

theorem length_relocationBytes (r : Relocation) :
    (relocationBytes r).length = 16 + r.label.length := by
  simp [relocationBytes, length_labelBytes]
  omega

theorem length_symbolBytes (s : Symbol) : (symbolBytes s).length = 16 + s.label.length := by
  simp [symbolBytes, length_labelBytes]
  omega

/-- A relocation is read back from the bytes it was written with. -/
theorem readRelocation_append {r : Relocation} (rest : List UInt8) (h : RelocationFits r) :
    readRelocation (relocationBytes r ++ rest) = .ok (r, rest) := by
  have hposition := number?_append 8 (n := r.position.toNat)
    (labelBytes r.label ++ (Bytes.ofNat 2 r.kind.code.toNat ++
      (Bytes.ofNat 2 r.scope.code.toNat ++ rest))) r.position.toNat_lt
  have hlabel := label?_append
    (Bytes.ofNat 2 r.kind.code.toNat ++ (Bytes.ofNat 2 r.scope.code.toNat ++ rest)) h.label
  have hkind := number?_append 2 (n := r.kind.code.toNat)
    (Bytes.ofNat 2 r.scope.code.toNat ++ rest) r.kind.code.toNat_lt
  have hscope := number?_append 2 (n := r.scope.code.toNat) rest r.scope.code.toNat_lt
  have hkindFits : ¬ RelocationKind.greatest < r.kind.code := UInt16.not_lt.2 h.kind
  have hscopeFits : ¬ Scope.greatest < r.scope.code := UInt16.not_lt.2 h.scope
  simp only [readRelocation, relocationBytes, List.append_assoc, hposition, hlabel, hkind, hscope,
    Option.bind_eq_bind, Option.bind_some, Option.pure_def, UInt64.ofNat_toNat, UInt16.ofNat_toNat,
    hkindFits, hscopeFits, if_false]

/-- A symbol is read back from the bytes it was written with. -/
theorem readSymbol_append {s : Symbol} (rest : List UInt8) (h : SymbolFits s) :
    readSymbol (symbolBytes s ++ rest) = .ok (s, rest) := by
  have hlabel := label?_append
    (Bytes.ofNat 2 s.kind.code.toNat ++ (Bytes.ofNat 2 s.scope.code.toNat ++
      (Bytes.ofNat 8 s.position.toNat ++ rest))) h.label
  have hkind := number?_append 2 (n := s.kind.code.toNat)
    (Bytes.ofNat 2 s.scope.code.toNat ++ (Bytes.ofNat 8 s.position.toNat ++ rest))
    s.kind.code.toNat_lt
  have hscope := number?_append 2 (n := s.scope.code.toNat)
    (Bytes.ofNat 8 s.position.toNat ++ rest) s.scope.code.toNat_lt
  have hposition := number?_append 8 (n := s.position.toNat) rest s.position.toNat_lt
  have hkindFits : ¬ SymbolKind.greatest < s.kind.code := UInt16.not_lt.2 h.kind
  have hscopeFits : ¬ Scope.greatest < s.scope.code := UInt16.not_lt.2 h.scope
  simp only [readSymbol, symbolBytes, List.append_assoc, hposition, hlabel, hkind, hscope,
    Option.bind_eq_bind, Option.bind_some, Option.pure_def, UInt64.ofNat_toNat, UInt16.ofNat_toNat,
    hkindFits, hscopeFits, if_false]

/-- A relocation that is read fits, and the bytes it is written with are gone. -/
theorem readRelocation_eq_ok {r : Relocation} {bytes rest : List UInt8}
    (h : readRelocation bytes = .ok (r, rest)) :
    RelocationFits r ∧ bytes.length = (relocationBytes r).length + rest.length := by
  simp only [readRelocation] at h
  split at h
  · cases h
  · rename_i entry tail hfields
    simp only [Option.bind_eq_bind, Option.bind_eq_some_iff, Prod.exists, Option.pure_def,
      Option.some.injEq, Prod.mk.injEq] at hfields
    obtain ⟨position, r₁, hposition, label, r₂, hlabel, kind, r₃, hkind, scope, r₄, hscope,
      rfl, rfl⟩ := hfields
    split at h
    · cases h
    · rename_i hkindFits
      split at h
      · cases h
      · rename_i hscopeFits
        obtain ⟨rfl, rfl⟩ := Prod.mk.inj (Except.ok.inj h)
        obtain ⟨-, hlen₁⟩ := number?_eq_some hposition
        obtain ⟨hlabelFits, hlen₂⟩ := label?_eq_some hlabel
        obtain ⟨-, hlen₃⟩ := number?_eq_some hkind
        obtain ⟨-, hlen₄⟩ := number?_eq_some hscope
        refine ⟨⟨UInt16.not_lt.1 hkindFits, UInt16.not_lt.1 hscopeFits, hlabelFits⟩, ?_⟩
        simp only [length_labelBytes, length_relocationBytes] at hlen₂ ⊢
        omega

/-- A symbol that is read fits, and the bytes it is written with are gone. -/
theorem readSymbol_eq_ok {s : Symbol} {bytes rest : List UInt8}
    (h : readSymbol bytes = .ok (s, rest)) :
    SymbolFits s ∧ bytes.length = (symbolBytes s).length + rest.length := by
  simp only [readSymbol] at h
  split at h
  · cases h
  · rename_i entry tail hfields
    simp only [Option.bind_eq_bind, Option.bind_eq_some_iff, Prod.exists, Option.pure_def,
      Option.some.injEq, Prod.mk.injEq] at hfields
    obtain ⟨label, r₁, hlabel, kind, r₂, hkind, scope, r₃, hscope, position, r₄, hposition,
      rfl, rfl⟩ := hfields
    split at h
    · cases h
    · rename_i hkindFits
      split at h
      · cases h
      · rename_i hscopeFits
        obtain ⟨rfl, rfl⟩ := Prod.mk.inj (Except.ok.inj h)
        obtain ⟨hlabelFits, hlen₁⟩ := label?_eq_some hlabel
        obtain ⟨-, hlen₂⟩ := number?_eq_some hkind
        obtain ⟨-, hlen₃⟩ := number?_eq_some hscope
        obtain ⟨-, hlen₄⟩ := number?_eq_some hposition
        refine ⟨⟨UInt16.not_lt.1 hkindFits, UInt16.not_lt.1 hscopeFits, hlabelFits⟩, ?_⟩
        simp only [length_labelBytes, length_symbolBytes] at hlen₁ ⊢
        omega

/-! ### Tables -/

section Table

variable {α : Type} {entry : List UInt8 → Except Error (α × List UInt8)} {bytesOf : α → List UInt8}

/-- Entries are read back one after the other. -/
theorem readEntries_flatMap (entries : List α) (rest : List UInt8)
    (hread : ∀ a ∈ entries, ∀ rest, entry (bytesOf a ++ rest) = .ok (a, rest)) :
    readEntries entry entries.length (entries.flatMap bytesOf ++ rest) = .ok entries := by
  induction entries with
  | nil => rfl
  | cons a entries ih =>
      have hhead := hread a List.mem_cons_self (entries.flatMap bytesOf ++ rest)
      have htail := ih fun b hb => hread b (List.mem_cons_of_mem a hb)
      rw [List.flatMap_cons, List.append_assoc, List.length_cons, readEntries, hhead]
      simp only [htail, Except.map]

/-- Entries that are no shorter than the least take at least that many bytes. -/
theorem le_length_flatMap (entries : List α) (hlen : ∀ a, entryMinimum ≤ (bytesOf a).length) :
    entryMinimum * entries.length ≤ (entries.flatMap bytesOf).length := by
  induction entries with
  | nil => simp
  | cons a entries ih =>
      have ha := hlen a
      rw [List.flatMap_cons, List.length_append, List.length_cons, Nat.mul_succ]
      omega

/-- A table is read back from the bytes it was written with. -/
theorem readTable_tableBytes (entries : List α) (hcount : entries.length < 2 ^ 64)
    (hlen : ∀ a, entryMinimum ≤ (bytesOf a).length)
    (hread : ∀ a ∈ entries, ∀ rest, entry (bytesOf a ++ rest) = .ok (a, rest)) :
    readTable entry (tableBytes bytesOf entries) = .ok entries := by
  have hfits : ¬ (entries.flatMap bytesOf).length / entryMinimum < entries.length := by
    have hle := le_length_flatMap entries hlen
    have hdiv : entries.length ≤ (entries.flatMap bytesOf).length / entryMinimum := by
      rw [Nat.le_div_iff_mul_le (by decide), Nat.mul_comm]
      exact hle
    omega
  have hentries := readEntries_flatMap entries [] hread
  rw [List.append_nil] at hentries
  rw [readTable, tableBytes, number?_append 8 _ hcount]
  simp only [hfits, if_false, hentries]

/-- Entries that are read satisfy what every entry read satisfies, and the bytes they are written with
    are gone. -/
theorem readEntries_eq_ok {P : α → Prop}
    (hentry : ∀ {a bytes rest}, entry bytes = .ok (a, rest) →
      P a ∧ bytes.length = (bytesOf a).length + rest.length) :
    ∀ {n : Nat} {bytes : List UInt8} {entries : List α}, readEntries entry n bytes = .ok entries →
      (∀ a ∈ entries, P a) ∧ (entries.flatMap bytesOf).length ≤ bytes.length
  | 0, _, _, h => by
      cases h
      simp
  | n + 1, bytes, entries, h => by
      rw [readEntries] at h
      split at h
      · cases h
      · rename_i a rest hhead
        cases htail : readEntries entry n rest with
        | error e => simp [htail, Except.map] at h
        | ok tail =>
            rw [htail] at h
            obtain rfl := Except.ok.inj h
            obtain ⟨ha, hlen⟩ := hentry hhead
            obtain ⟨htailFits, htailLen⟩ := readEntries_eq_ok hentry htail
            refine ⟨List.forall_mem_cons.2 ⟨ha, htailFits⟩, ?_⟩
            rw [List.flatMap_cons, List.length_append]
            omega

/-- A table that is read takes at least the bytes it is written with. -/
theorem readTable_eq_ok {P : α → Prop}
    (hentry : ∀ {a bytes rest}, entry bytes = .ok (a, rest) →
      P a ∧ bytes.length = (bytesOf a).length + rest.length)
    {bytes : List UInt8} {entries : List α} (h : readTable entry bytes = .ok entries) :
    (∀ a ∈ entries, P a) ∧ (tableBytes bytesOf entries).length ≤ bytes.length := by
  rw [readTable] at h
  split at h
  · cases h
  · rename_i count rest hnumber
    split at h
    · cases h
    · obtain ⟨-, hlen⟩ := number?_eq_some hnumber
      obtain ⟨hfits, hentries⟩ := readEntries_eq_ok hentry h
      refine ⟨hfits, ?_⟩
      rw [tableBytes, List.length_append, Bytes.length_ofNat, hlen]
      omega

end Table

end ObjectFile

end VectorRisc
