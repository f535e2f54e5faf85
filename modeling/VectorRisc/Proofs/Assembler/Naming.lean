/-
Module: VectorRisc.Proofs.Assembler.Naming
Layer: Proofs
Purpose: Which names of a line are replaced. A name is what goes on from an unquoted letter or underscore,
  joined to nothing before it, as far as label bytes go; those that stand for a text are replaced, and every
  other byte is copied. The scans that look for names, comments, labels and operands all take the same
  bytes for quoted.
Imports: Mathlib.Data.List.TakeWhile, Mathlib.Tactic, VectorRisc.Assembler.State, VectorRisc.Proofs.Text.Quoting
Trusted boundary: none
Main exports: Text.nameAt?, Text.Belongs, Text.shares, Assembler.substitute_eq_shares,
  Assembler.NameScan, Assembler.nameScan, Assembler.scans_agree
Open obligations: none
-/
import Mathlib.Data.List.TakeWhile
import Mathlib.Tactic
import VectorRisc.Assembler.State
import VectorRisc.Proofs.Text.Quoting

namespace VectorRisc

namespace Text

/-! ### Names -/

/-- The byte before the place belongs to a name or is a percent sign. -/
def joinedAt (t : Text) : Nat → Bool
  | 0 => false
  | n + 1 => t[n]?.any fun b => isLabelByte b || b = ascii '%'

/-- The name that starts at a place, as far as label bytes go. -/
def nameAt? (t : Text) (n : Nat) : Option Text :=
  let name := (t.drop n).takeWhile isLabelByte
  if t.quoteAt n = .outside && !t.joinedAt n && name.head?.any isNameStart then some name else none

/-- The place belongs to the name that starts at `m`. -/
def Belongs (t : Text) (i m : Nat) (w : Text) : Prop := t.nameAt? m = some w ∧ m ≤ i ∧ i < m + w.length

theorem isLabelByte_of_isNameStart {b : UInt8} (h : isNameStart b = true) : isLabelByte b = true := by
  simp [isLabelByte, isLabelStart, h]

theorem bares_of_isLabelByte {b : UInt8} (h : isLabelByte b = true) : Quote.outside.bares b = true := by
  have hmark : Quote.isMark b = false := by
    rw [Bool.eq_false_iff]
    intro hmark
    rcases Quote.isMark_iff.1 hmark with rfl | rfl <;> exact absurd h (by decide)
  simp [Quote.bares, hmark]

theorem step_of_bares {b : UInt8} (h : Quote.outside.bares b = true) : Quote.outside.step b = .outside := by
  simp only [Quote.bares, decide_true, Bool.true_and, Bool.not_eq_true'] at h
  simp [Quote.step, h]

section Names

variable {t w v : Text} {i m n : Nat}

theorem joinedAt_succ {b : UInt8} (h : t[n]? = some b) :
    t.joinedAt (n + 1) = (isLabelByte b || b = ascii '%') := by
  rw [joinedAt, h, Option.any_some]

theorem nameAt?_eq_some_iff : t.nameAt? m = some w ↔
    t.quoteAt m = .outside ∧ t.joinedAt m = false ∧ w.head?.any isNameStart = true ∧
      w = (t.drop m).takeWhile isLabelByte := by
  simp only [nameAt?, Option.ite_none_right_eq_some, Option.some.injEq, Bool.and_eq_true, decide_eq_true_eq,
    Bool.not_eq_true']
  constructor
  · rintro ⟨⟨⟨hquote, hjoined⟩, hstart⟩, rfl⟩
    exact ⟨hquote, hjoined, hstart, rfl⟩
  · rintro ⟨hquote, hjoined, hstart, rfl⟩
    exact ⟨⟨⟨hquote, hjoined⟩, hstart⟩, rfl⟩

/-- The bytes of a name stand where the name stands. -/
theorem getElem?_name (h : t.nameAt? m = some w) {j : Nat} (hj : j < w.length) :
    t[m + j]? = some w[j] ∧ isLabelByte w[j] = true := by
  obtain ⟨-, -, -, hw⟩ := nameAt?_eq_some_iff.1 h
  have hfront : w <+: t.drop m := hw ▸ List.takeWhile_prefix _
  constructor
  · have hall := List.getElem?_eq_getElem (Nat.lt_of_lt_of_le hj hfront.length_le)
    rw [List.getElem?_drop] at hall
    rw [hall, hfront.getElem hj]
  · have hmem : w[j] ∈ (t.drop m).takeWhile isLabelByte := hw ▸ List.getElem_mem hj
    exact List.mem_takeWhile_imp hmem

theorem length_name_pos (h : t.nameAt? m = some w) : 0 < w.length := by
  obtain ⟨-, -, hstart, -⟩ := nameAt?_eq_some_iff.1 h
  cases w with
  | nil => cases hstart
  | cons c w => exact Nat.succ_pos _

/-- A name ends within the text. -/
theorem add_length_name_le (h : t.nameAt? m = some w) : m + w.length ≤ t.length := by
  have hpos := length_name_pos h
  obtain ⟨hlast, -⟩ := List.getElem?_eq_some_iff.1
    (getElem?_name h (j := w.length - 1) (by omega)).1
  omega

/-- The bytes of a name, and what follows it, stand outside quotes. -/
theorem quoteAt_name (h : t.nameAt? m = some w) {j : Nat} (hj : j ≤ w.length) :
    t.quoteAt (m + j) = .outside := by
  induction j with
  | zero => exact (nameAt?_eq_some_iff.1 h).1
  | succ j ih =>
      obtain ⟨hbyte, hlabel⟩ := getElem?_name h (Nat.lt_of_succ_le hj)
      rw [← Nat.add_assoc, quoteAt_succ hbyte, ih (Nat.le_of_succ_le hj),
        step_of_bares (bares_of_isLabelByte hlabel)]

/-- What follows a byte of a name is joined to it. -/
theorem joinedAt_name (h : t.nameAt? m = some w) {j : Nat} (hj : j < w.length) :
    t.joinedAt (m + j + 1) = true := by
  obtain ⟨hbyte, hlabel⟩ := getElem?_name h hj
  rw [joinedAt_succ hbyte, hlabel, Bool.true_or]

namespace Belongs

/-- No name starts within another one. -/
theorem start_le {k : Nat} {u : Text} (h : Belongs t i m w) (hu : Belongs t i k u) : m ≤ k := by
  by_contra hlt
  have hinside : m - 1 - k < u.length := by
    have hends := hu.2.2
    have hstarts := h.2.1
    omega
  have hjoined := joinedAt_name hu.1 hinside
  rw [show k + (m - 1 - k) + 1 = m by omega, (nameAt?_eq_some_iff.1 h.1).2.1] at hjoined
  cases hjoined

/-- A place belongs to one name at most. -/
theorem unique {k : Nat} {u : Text} (h : Belongs t i m w) (hu : Belongs t i k u) : m = k ∧ w = u := by
  obtain rfl := Nat.le_antisymm (h.start_le hu) (hu.start_le h)
  exact ⟨rfl, Option.some.inj (h.1.symm.trans hu.1)⟩

theorem bare (h : Belongs t i m w) {b : UInt8} (hb : t[i]? = some b) : Bare t i b ∧ isLabelByte b = true := by
  obtain ⟨hname, hle, hlt⟩ := h
  have hj : i - m < w.length := by omega
  obtain ⟨hbyte, hlabel⟩ := getElem?_name hname hj
  have hquote := quoteAt_name hname hj.le
  rw [Nat.add_sub_cancel' hle] at hbyte hquote
  obtain rfl := Option.some.inj (hb.symm.trans hbyte)
  exact ⟨⟨hb, by rw [hquote]; exact bares_of_isLabelByte hlabel⟩, hlabel⟩

end Belongs

end Names

/-! ### What each byte becomes -/

/-- The name that a place belongs to, and where it starts. -/
def nameAround? (t : Text) (i : Nat) : Option (Nat × Text) :=
  (List.range (i + 1)).findSome? fun m =>
    (t.nameAt? m).bind fun w => if i < m + w.length then some (m, w) else none

/-- What the byte at a place becomes: the first byte of a name that stands for a text becomes the text, its
    other bytes become nothing, and all other bytes stay. -/
def share (value? : Text → Option Text) (t : Text) (i : Nat) : Text :=
  match t.nameAround? i with
  | none => t[i]?.toList
  | some (m, w) =>
    match value? w with
    | none => t[i]?.toList
    | some v => if i = m then v else []

section Shares

variable {value? : Text → Option Text} {t w v : Text} {i m n : Nat}

theorem belongs_of_nameAround? {p : Nat × Text} (h : t.nameAround? i = some p) : Belongs t i p.1 p.2 := by
  obtain ⟨m, hm, hfound⟩ := List.exists_of_findSome?_eq_some h
  obtain ⟨w, hname, hinside⟩ := Option.bind_eq_some_iff.1 hfound
  split at hinside
  · rename_i hlt
    cases hinside
    exact ⟨hname, Nat.lt_succ_iff.1 (List.mem_range.1 hm), hlt⟩
  · cases hinside

theorem nameAround?_of_belongs (h : Belongs t i m w) : t.nameAround? i = some (m, w) := by
  cases hfound : t.nameAround? i with
  | none =>
      have hnone := List.findSome?_eq_none_iff.1 hfound m (List.mem_range.2 (Nat.lt_succ_of_le h.2.1))
      rw [h.1, Option.bind_some, if_pos h.2.2] at hnone
      cases hnone
  | some p =>
      obtain ⟨hm, hw⟩ := h.unique (belongs_of_nameAround? hfound)
      rw [hm, hw]

theorem share_of_value (h : Belongs t i m w) (hv : value? w = some v) :
    share value? t i = if i = m then v else [] := by
  simp only [share, nameAround?_of_belongs h, hv]

theorem share_of_kept (h : ∀ m w v, Belongs t i m w → value? w ≠ some v) :
    share value? t i = t[i]?.toList := by
  rw [share]
  cases hfound : t.nameAround? i with
  | none => rfl
  | some p =>
      cases hv : value? p.2 with
      | none => simp only [hv]
      | some v => exact absurd hv (h _ _ v (belongs_of_nameAround? hfound))

/-- What the bytes of the text become, one after the other. -/
def shares (value? : Text → Option Text) (t : Text) : List Text := (List.range t.length).map (share value? t)

theorem getElem?_shares (hi : i < t.length) : (shares value? t)[i]? = some (share value? t i) := by
  rw [shares, List.getElem?_map, List.getElem?_range hi, Option.map_some]

theorem getElem?_shares_of_kept {b : UInt8} (h : ∀ m w v, Belongs t i m w → value? w ≠ some v)
    (hb : t[i]? = some b) : (shares value? t)[i]? = some [b] := by
  rw [getElem?_shares (List.getElem?_eq_some_iff.1 hb).1, share_of_kept h, hb, Option.toList_some]

/-- A whole name becomes what it stands for, or stays. -/
theorem flatMap_share_name (h : t.nameAt? n = some w) :
    (List.range' n w.length).flatMap (share value? t) = (value? w).getD w := by
  have hbelongs (j : Nat) (hj : j < w.length) : Belongs t (n + j) n w := ⟨h, Nat.le_add_right n j, by omega⟩
  cases hv : value? w with
  | none =>
      -- every byte stays
      have hbyte (j : Nat) (hj : j < w.length) : share value? t (n + j) = [w[j]] := by
        rw [share_of_kept, (getElem?_name h hj).1, Option.toList_some]
        intro m u v hu
        rw [← ((hbelongs j hj).unique hu).2, hv]
        exact fun hsome => nomatch hsome
      have hall : (List.range' n w.length).map (share value? t) = w.map fun b => [b] := by
        apply List.ext_getElem (by simp)
        intro j hj _
        have hin : j < w.length := by simpa using hj
        simpa using hbyte j hin
      rw [List.flatMap_def, hall, ← List.flatMap_def, List.flatMap_singleton', Option.getD_none]
  | some v =>
      obtain ⟨k, hk⟩ := Nat.exists_eq_succ_of_ne_zero (Nat.ne_of_gt (length_name_pos h))
      have hrest : (List.range' (n + 1) k).flatMap (share value? t) = [] := by
        rw [List.flatMap_eq_nil_iff]
        intro i hi
        rw [List.mem_range'_1] at hi
        have hinside := hbelongs (i - n) (by omega)
        rw [Nat.add_sub_cancel' (by omega)] at hinside
        rw [share_of_value hinside hv, if_neg (by omega)]
      have hfirst := share_of_value (hbelongs 0 (length_name_pos h)) hv
      rw [Nat.add_zero, if_pos rfl] at hfirst
      rw [hk, List.range'_succ, List.flatMap_cons, hfirst, hrest, List.append_nil, Option.getD_some]

/-- The place lies within a name, behind its first byte. -/
def Inside (t : Text) (n : Nat) : Prop := ∃ m w, Belongs t n m w ∧ m < n

theorem not_inside_zero (t : Text) : ¬Inside t 0 := fun ⟨_, _, _, hlt⟩ => nomatch hlt

theorem not_inside_succ (hn : ¬Inside t n) (hnone : t.nameAt? n = none) : ¬Inside t (n + 1) := by
  rintro ⟨m, w, ⟨hname, -, hend⟩, hlt⟩
  rcases Nat.lt_or_eq_of_le (Nat.le_of_lt_succ hlt) with hbefore | rfl
  · exact hn ⟨m, w, ⟨hname, hbefore.le, Nat.lt_of_succ_lt hend⟩, hbefore⟩
  · rw [hnone] at hname
    cases hname

theorem not_inside_name (h : t.nameAt? n = some w) : ¬Inside t (n + w.length) := by
  rintro ⟨m, u, hu, hlt⟩
  have hpos := length_name_pos h
  have hend := hu.2.2
  have hlast : Belongs t (n + w.length - 1) n w := ⟨h, by omega, by omega⟩
  obtain ⟨rfl, rfl⟩ := hlast.unique (k := m) (u := u) ⟨hu.1, by omega, by omega⟩
  omega

end Shares

end Text

namespace Assembler

open Text (Bare Belongs Inside joinedAt nameAt? share shares)

/-! ### Names that are replaced -/

section Names

variable {value? : Text → Option Text} {t : Text} {n : Nat}

/-- The bytes of a name that was handled are passed over. -/
theorem substituteFrom_skip (q : Quote) (joined : Bool) (skip : Nat) (rest : Text) :
    substituteFrom value? q joined skip rest = substituteFrom value? q joined 0 (rest.drop skip) := by
  induction rest generalizing skip with
  | nil =>
      rw [List.drop_nil, substituteFrom, substituteFrom]
  | cons b rest ih =>
      cases skip with
      | zero => rfl
      | succ skip => rw [substituteFrom, ih, List.drop_succ_cons]

theorem substituteFrom_cons (q : Quote) (joined : Bool) (b : UInt8) (rest : Text) :
    substituteFrom value? q joined 0 (b :: rest) =
      if q = .outside ∧ joined = false ∧ Text.isNameStart b = true then
        let name := b :: rest.takeWhile Text.isLabelByte
        (value? name).getD name ++ substituteFrom value? .outside true (name.length - 1) rest
      else b :: substituteFrom value? (q.step b) (Text.isLabelByte b || b = ascii '%') 0 rest := by
  cases q with
  | outside => cases joined <;> cases hstart : Text.isNameStart b <;> simp [substituteFrom, hstart]
  | inside mark => simp [substituteFrom]
  | escaped mark => simp [substituteFrom]

/-- From a place that is not within a name, the scan for names goes on in the quotes of the place, and
    leaves what each byte from there on becomes. -/
theorem substituteFrom_eq_shares (hn : n ≤ t.length) (hout : ¬Inside t n) :
    substituteFrom value? (t.quoteAt n) (t.joinedAt n) 0 (t.drop n) =
      (List.range' n (t.length - n)).flatMap (share value? t) := by
  induction hleft : t.length - n using Nat.strong_induction_on generalizing n with
  | h left ih =>
      subst hleft
      rcases Nat.lt_or_eq_of_le hn with hlt | rfl
      · have hb := List.getElem?_eq_getElem hlt
        rw [Text.drop_eq_cons hb, substituteFrom_cons]
        by_cases hname : t.quoteAt n = .outside ∧ t.joinedAt n = false ∧ Text.isNameStart t[n] = true
        · -- a whole name is handled at once, and the scan goes on behind it
          obtain ⟨hquote, hjoined, hstart⟩ := hname
          have hword : t[n] :: (t.drop (n + 1)).takeWhile Text.isLabelByte =
              (t.drop n).takeWhile Text.isLabelByte := by
            rw [Text.drop_eq_cons hb, List.takeWhile_cons_of_pos (Text.isLabelByte_of_isNameStart hstart)]
          have hfound : t.nameAt? n = some (t[n] :: (t.drop (n + 1)).takeWhile Text.isLabelByte) :=
            Text.nameAt?_eq_some_iff.2 ⟨hquote, hjoined, hstart, hword⟩
          rw [if_pos ⟨hquote, hjoined, hstart⟩]
          generalize t[n] :: (t.drop (n + 1)).takeWhile Text.isLabelByte = w at hfound
          dsimp only
          have hpos := Text.length_name_pos hfound
          have hend := Text.add_length_name_le hfound
          have hbehind := ih (t.length - (n + w.length)) (by omega) hend (Text.not_inside_name hfound) rfl
          have hlast := Text.joinedAt_name hfound (j := w.length - 1) (by omega)
          rw [show n + (w.length - 1) + 1 = n + w.length by omega] at hlast
          rw [Text.quoteAt_name hfound (Nat.le_refl _), hlast] at hbehind
          rw [substituteFrom_skip, List.drop_drop, show n + 1 + (w.length - 1) = n + w.length by omega,
            hbehind, ← Text.flatMap_share_name hfound, ← List.flatMap_append, List.range'_append_1,
            show w.length + (t.length - (n + w.length)) = t.length - n by omega]
        · have hnone : t.nameAt? n = none := by
            rw [← Option.not_isSome_iff_eq_none, Option.isSome_iff_exists]
            rintro ⟨w, hw⟩
            obtain ⟨hquote, hjoined, hstart, rfl⟩ := Text.nameAt?_eq_some_iff.1 hw
            rw [Text.drop_eq_cons hb, List.takeWhile_cons] at hstart
            split at hstart
            · exact hname ⟨hquote, hjoined, hstart⟩
            · cases hstart
          have hkept : share value? t n = [t[n]] := by
            rw [Text.share_of_kept, hb, Option.toList_some]
            intro m w v hw
            rcases Nat.lt_or_eq_of_le hw.2.1 with hbefore | rfl
            · exact absurd ⟨m, w, hw, hbefore⟩ hout
            · exact absurd hw.1 (by rw [hnone]; exact fun h => nomatch h)
          have hbehind := ih (t.length - (n + 1)) (by omega) hlt (Text.not_inside_succ hout hnone) rfl
          rw [if_neg hname, ← Text.quoteAt_succ hb, ← Text.joinedAt_succ hb, hbehind,
            show t.length - n = t.length - (n + 1) + 1 by omega, List.range'_succ, List.flatMap_cons, hkept,
            List.singleton_append]
      · rw [List.drop_length, Nat.sub_self, substituteFrom]
        rfl

theorem substitute_eq_shares (value? : Text → Option Text) (t : Text) :
    substitute value? t = (shares value? t).flatten := by
  rw [shares, ← List.flatMap_def, List.range_eq_range']
  exact substituteFrom_eq_shares (Nat.zero_le t.length) (Text.not_inside_zero t)

end Names

/-- The name stands for the text at this point: it is an equate, and no label of the source unless it is an
    argument of a macro too. -/
def State.StandsFor (s : State) (w v : Text) : Prop :=
  s.equates.get? w = some v ∧ (w ∈ s.args ∨ w ∉ s.labels)

theorem State.valueOf?_eq_some_iff {s : State} {w v : Text} : s.valueOf? w = some v ↔ s.StandsFor w v := by
  rw [valueOf?, StandsFor]
  cases s.equates.get? w with
  | none => simp
  | some value =>
      by_cases hlabel : w ∈ s.labels <;> by_cases harg : w ∈ s.args <;> simp [hlabel, harg]

/-- The scan for names: there is a share of the result for every byte of the text. At every place that is not
    within a name the scan goes on in the quotes of the place; names that stand for a text give way to it,
    and every other byte is its own share, be it quoted, in the name of a register, or in another name. -/
structure NameScan (s : State) (t : Text) (shares : List Text) : Prop where
  length : shares.length = t.length
  result : s.substitute t = shares.flatten
  goesOn : ∀ n ≤ t.length, ¬Inside t n → s.substitute t = (shares.take n).flatten ++
    substituteFrom s.valueOf? (t.quoteAt n) (t.joinedAt n) 0 (t.drop n)
  names : ∀ i m w, Belongs t i m w → t.quoteAt i = .outside
  replaced : ∀ i m w v, Belongs t i m w → s.StandsFor w v → shares[i]? = some (if i = m then v else [])
  other : ∀ (i m : Nat) (w : Text) (b : UInt8), Belongs t i m w → (∀ v, ¬s.StandsFor w v) →
    t[i]? = some b → shares[i]? = some [b]
  nameless : ∀ (i : Nat) (b : UInt8), (∀ m w, ¬Belongs t i m w) → t[i]? = some b → shares[i]? = some [b]
  quoted : ∀ (i : Nat) (b : UInt8), ¬Bare t i b → t[i]? = some b → shares[i]? = some [b]
  register : ∀ (m i : Nat) (b : UInt8), t[m]? = some (ascii '%') → m ≤ i →
    (∀ j, m < j → j ≤ i → ∃ c, t[j]? = some c ∧ Text.isLabelByte c = true) →
    t[i]? = some b → shares[i]? = some [b]

/-- What stands behind a percent sign is no name. -/
theorem not_belongs_register {t : Text} {m i : Nat} (hsign : t[m]? = some (ascii '%')) (hle : m ≤ i)
    (hrun : ∀ j, m < j → j ≤ i → ∃ c, t[j]? = some c ∧ Text.isLabelByte c = true) (n : Nat) (w : Text) :
    ¬Belongs t i n w := by
  intro h
  obtain ⟨hname, hstart, hend⟩ := h
  rcases Nat.lt_or_ge m n with hlt | hge
  · -- the name would start right behind the percent sign or a byte that is joined to it
    obtain ⟨k, rfl⟩ := Nat.exists_eq_succ_of_ne_zero (Nat.ne_of_gt (Nat.zero_lt_of_lt hlt))
    have hfree := (Text.nameAt?_eq_some_iff.1 hname).2.1
    rcases Nat.lt_or_eq_of_le (Nat.le_of_lt_succ hlt) with hbehind | rfl
    · obtain ⟨c, hc, hlabel⟩ := hrun k hbehind (Nat.le_of_succ_le hstart)
      rw [Nat.succ_eq_add_one, Text.joinedAt_succ hc, hlabel, Bool.true_or] at hfree
      cases hfree
    · rw [Nat.succ_eq_add_one, Text.joinedAt_succ hsign] at hfree
      exact absurd hfree (by decide)
  · have hinside : Belongs t m n w := ⟨hname, hge, Nat.lt_of_le_of_lt hle hend⟩
    exact absurd (hinside.bare hsign).2 (by decide)

theorem nameScan (s : State) (t : Text) : NameScan s t (shares s.valueOf? t) := by
  have hnameless {i : Nat} {b : UInt8} (h : ∀ m w, ¬Belongs t i m w) (hb : t[i]? = some b) :
      (shares s.valueOf? t)[i]? = some [b] :=
    Text.getElem?_shares_of_kept (fun m w _ hw => absurd hw (h m w)) hb
  constructor
  case length => rw [shares, List.length_map, List.length_range]
  case result => exact substitute_eq_shares s.valueOf? t
  case goesOn =>
    intro n hn hout
    have hsplit := List.range'_append_1 (s := 0) (m := n) (n := t.length - n)
    rw [Nat.zero_add, Nat.add_sub_cancel' hn] at hsplit
    rw [State.substitute, substitute_eq_shares, substituteFrom_eq_shares hn hout, shares, ← List.map_take,
      List.take_range, Nat.min_eq_left hn, ← List.flatMap_def, ← List.flatMap_def, List.range_eq_range',
      List.range_eq_range', ← List.flatMap_append, hsplit]
  case names =>
    rintro i m w ⟨hname, hle, hlt⟩
    have hquote := Text.quoteAt_name hname (j := i - m) (by omega)
    rwa [Nat.add_sub_cancel' hle] at hquote
  case replaced =>
    intro i m w v hw hv
    have hend := Text.add_length_name_le hw.1
    have hlt := hw.2.2
    rw [Text.getElem?_shares (by omega), Text.share_of_value hw (State.valueOf?_eq_some_iff.2 hv)]
  case other =>
    intro i m w b hw hnone hb
    refine Text.getElem?_shares_of_kept ?_ hb
    intro k u v hu
    rw [← (hw.unique hu).2]
    exact fun hv => hnone v (State.valueOf?_eq_some_iff.1 hv)
  case nameless => exact fun i b h hb => hnameless h hb
  case quoted => exact fun i b hquoted hb => hnameless (fun m w hw => hquoted (hw.bare hb).1) hb
  case register =>
    exact fun m i b hsign hle hrun hb => hnameless (not_belongs_register hsign hle hrun) hb

/-- The scans for comments, for an unquoted byte, for names and for operands take the same places of a text
    for quoted: each goes on at a place in the quotes that `quoteAt` finds there. So a comment starts at the
    first unquoted mark, an unquoted byte is found where it stands first, and whole names that stand for a
    text are replaced while every other byte is copied. -/
theorem scans_agree (t : Text) :
    Text.CommentScan (ascii '#') t (uncommented t) ∧ (∀ stop, Text.StopScan stop t) ∧
      (∀ s : State, ∃ shares, NameScan s t shares) ∧ Text.OperandScan t :=
  ⟨Text.commentScan (ascii '#') t, fun stop => Text.stopScan stop t, fun s => ⟨_, nameScan s t⟩,
    Text.operandScan t⟩

end Assembler

end VectorRisc
