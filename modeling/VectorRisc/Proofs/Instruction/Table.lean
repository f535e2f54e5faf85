/-
Module: VectorRisc.Proofs.Instruction.Table
Layer: Proofs
Purpose: Which lists of mnemonics are an instruction set. The mnemonics are accepted one after the other,
  each against those before it; all of them are accepted exactly if names are distinct, every real
  mnemonic fits its layout, and real mnemonics with one opcode share a layout with a function code that
  tells them apart. In such a list a name and a code each belong to one mnemonic.
Imports: Mathlib.Tactic, VectorRisc.Instruction.Table
Trusted boundary: none
Main exports: Mnemonic.Fits, Mnemonic.StandsBeside, Table.Valid, Table.fault?_eq_none_iff,
  Table.ofList_eq_ok_iff, Table.Valid.lookup?_eq_some_iff, Table.Valid.format?_eq,
  Table.Valid.byCode?_eq
Open obligations: none
-/
import Mathlib.Tactic
import VectorRisc.Instruction.Table

namespace VectorRisc

/-! ### Mnemonics that fit -/

/-- The layout is one that descriptions have a meaning for. -/
def Format.Known (format : Format) : Prop := format ∈ [.r, .i, .j, .ei, .pseudo]

instance (format : Format) : Decidable format.Known :=
  inferInstanceAs (Decidable (format ∈ [.r, .i, .j, .ei, .pseudo]))

/-- The layout tells mnemonics of one opcode apart by a function code. -/
def Format.HasFunc (format : Format) : Prop := format = .r ∨ format = .ei

instance (format : Format) : Decidable format.HasFunc :=
  inferInstanceAs (Decidable (format = .r ∨ format = .ei))

namespace Mnemonic

/-- A real mnemonic fits its layout: its opcode and its function code have room in the word, and the
    layout has a field for each of its operands. -/
def Fits (m : Mnemonic) : Prop :=
  m.opcode ≤ 0x7f ∧ (∀ op ∈ m.operands, op ∈ OperandKind.allowed m.format) ∧
    (m.format = .r → m.func ≤ 0x3ff) ∧ (m.format = .ei → m.func ≤ 0xf)

instance (m : Mnemonic) : Decidable m.Fits :=
  inferInstanceAs (Decidable (_ ∧ _ ∧ _ ∧ _))

/-- Two real mnemonics can be told apart by their words: with one opcode they have one layout, and
    function codes that differ. -/
def StandsBeside (a b : Mnemonic) : Prop :=
  a.opcode = b.opcode → a.format = b.format ∧ a.format.HasFunc ∧ a.func ≠ b.func

instance (a b : Mnemonic) : Decidable (a.StandsBeside b) :=
  inferInstanceAs (Decidable (_ → _ ∧ _ ∧ _))

theorem StandsBeside.symm {a b : Mnemonic} (h : a.StandsBeside b) : b.StandsBeside a := by
  intro hop
  obtain ⟨hformat, hfunc, hne⟩ := h hop.symm
  exact ⟨hformat.symm, hformat ▸ hfunc, hne.symm⟩

end Mnemonic

namespace Table

open Mnemonic

/-- A list of mnemonics that is an instruction set. -/
structure Valid (list : List Mnemonic) : Prop where
  names : (list.map Mnemonic.name).Nodup
  fits : ∀ m ∈ list, m.isPseudo = false → m.Fits
  apart : list.Pairwise fun a b => a.isPseudo = false → b.isPseudo = false → a.StandsBeside b

instance (list : List Mnemonic) : Decidable (Valid list) :=
  decidable_of_iff
    ((list.map Mnemonic.name).Nodup ∧ (∀ m ∈ list, m.isPseudo = false → m.Fits) ∧
      list.Pairwise fun a b => a.isPseudo = false → b.isPseudo = false → a.StandsBeside b)
    ⟨fun ⟨hnames, hfits, hapart⟩ => ⟨hnames, hfits, hapart⟩, fun h => ⟨h.names, h.fits, h.apart⟩⟩

/-! ### Codes and layouts in a list -/

/-- The code of a real mnemonic of a known layout starts with its opcode. -/
theorem codeOf_fst {m : Mnemonic} (hknown : m.format.Known) (hreal : m.isPseudo = false) :
    (codeOf m).1 = m.opcode := by
  obtain ⟨name, format, opcode, func, operands, imm⟩ := m
  cases format with
  | r | i | j | ei => rfl
  | pseudo => cases hreal
  | unknown code => simp [Format.Known] at hknown

theorem codeOf_of_hasFunc {m : Mnemonic} (h : m.format.HasFunc) : codeOf m = (m.opcode, m.func) := by
  rcases h with h | h <;> rw [codeOf, h]

/-- Mnemonics that share a layout give it to their opcode. -/
theorem formatIn_eq_some {list : List Mnemonic} {op : UInt8} {format : Format}
    (hall : ∀ m ∈ list, m.isPseudo = false → m.opcode = op → m.format = format)
    (hsome : ∃ m ∈ list, m.isPseudo = false ∧ m.opcode = op) : formatIn list op = some format := by
  induction list using List.reverseRecOn with
  | nil =>
      obtain ⟨m, hm, -⟩ := hsome
      cases hm
  | append_singleton rest last ih =>
      -- the fold keeps the latest mnemonic, so the list is taken from its end
      have hstep : formatIn (rest ++ [last]) op =
          if !last.isPseudo && last.opcode = op then some last.format else formatIn rest op := by
        rw [formatIn, List.foldl_append]
        rfl
      rw [hstep]
      split
      · rename_i hlast
        simp only [Bool.and_eq_true, Bool.not_eq_true', decide_eq_true_eq] at hlast
        rw [hall last (by simp) hlast.1 hlast.2]
      · rename_i hlast
        simp only [Bool.and_eq_true, Bool.not_eq_true', decide_eq_true_eq] at hlast
        apply ih
        · intro m hm
          exact hall m (List.mem_append_left _ hm)
        · obtain ⟨m, hm, hreal, hop⟩ := hsome
          rcases List.mem_append.1 hm with hm | hm
          · exact ⟨m, hm, hreal, hop⟩
          · rw [List.mem_singleton.1 hm] at hreal hop
            exact absurd ⟨hreal, hop⟩ hlast

/-- An opcode that no real mnemonic has is given no layout. -/
theorem formatIn_eq_none {list : List Mnemonic} {op : UInt8}
    (h : ∀ m ∈ list, m.isPseudo = false → m.opcode ≠ op) : formatIn list op = none := by
  rw [formatIn]
  induction list with
  | nil => rfl
  | cons m rest ih =>
      have hother : (!m.isPseudo && decide (m.opcode = op)) = false := by
        cases hreal : m.isPseudo with
        | true => rfl
        | false => simpa using h m List.mem_cons_self hreal
      rw [List.foldl_cons, hother]
      exact ih fun other hother => h other (List.mem_cons_of_mem _ hother)

/-- A mnemonic that is found by a code is a real one of the list, and has the code. -/
theorem findCode?_eq_some {list : List Mnemonic} {code : UInt8 × UInt16} {m : Mnemonic}
    (h : findCode? list code = some m) : m ∈ list ∧ m.isPseudo = false ∧ codeOf m = code := by
  have hfound := List.find?_some h
  simp only [Bool.and_eq_true, Bool.not_eq_true', decide_eq_true_eq] at hfound
  exact ⟨List.mem_of_find?_eq_some h, hfound⟩

theorem findCode?_eq_none_iff {list : List Mnemonic} {code : UInt8 × UInt16} :
    findCode? list code = none ↔ ∀ m ∈ list, m.isPseudo = false → codeOf m ≠ code := by
  simp [findCode?, List.find?_eq_none]

/-! ### One more mnemonic -/

/-- What a mnemonic has to bring along to join a list. -/
structure Joins (seen : List Mnemonic) (m : Mnemonic) : Prop where
  name : m.name ∉ seen.map Mnemonic.name
  fits : m.isPseudo = false → m.Fits
  apart : ∀ other ∈ seen, other.isPseudo = false → m.isPseudo = false → other.StandsBeside m

theorem valid_append_singleton_iff {seen : List Mnemonic} {m : Mnemonic} :
    Valid (seen ++ [m]) ↔ Valid seen ∧ Joins seen m := by
  constructor
  · rintro ⟨hnames, hfits, hapart⟩
    rw [List.map_append, List.map_singleton] at hnames
    obtain ⟨hseen, -, hnew⟩ := List.nodup_append.1 hnames
    obtain ⟨hbefore, -, hlast⟩ := List.pairwise_append.1 hapart
    refine ⟨⟨hseen, fun other hother => hfits other (List.mem_append_left _ hother), hbefore⟩, ?_, ?_, ?_⟩
    · intro hmem
      exact hnew _ hmem _ (List.mem_singleton_self _) rfl
    · exact hfits m (List.mem_append_right _ (List.mem_singleton_self m))
    · intro other hother
      exact hlast other hother m (List.mem_singleton_self m)
  · rintro ⟨⟨hnames, hfits, hapart⟩, hname, hfit, hbeside⟩
    refine ⟨?_, ?_, ?_⟩
    · rw [List.map_append, List.map_singleton]
      refine List.nodup_append.2 ⟨hnames, List.nodup_singleton _, ?_⟩
      intro name hold other hother heq
      rw [heq, List.mem_singleton.1 hother] at hold
      exact hname hold
    · intro other hother
      rcases List.mem_append.1 hother with hold | hnew
      · exact hfits other hold
      · rw [List.mem_singleton.1 hnew]
        exact hfit
    · refine List.pairwise_append.2 ⟨hapart, List.pairwise_singleton _ _, ?_⟩
      intro other hother new hnew
      rw [List.mem_singleton.1 hnew]
      exact hbeside other hother

theorem Valid.of_append {front back : List Mnemonic} (h : Valid (front ++ back)) : Valid front := by
  refine ⟨?_, fun m hm => h.fits m (List.mem_append_left _ hm), (List.pairwise_append.1 h.apart).1⟩
  have hnames := h.names
  rw [List.map_append] at hnames
  exact (List.nodup_append.1 hnames).1

/-- Any two real mnemonics of a valid list can be told apart. -/
theorem Valid.standsBeside {list : List Mnemonic} (h : Valid list) {a b : Mnemonic} (ha : a ∈ list)
    (hb : b ∈ list) (hne : a ≠ b) (hreala : a.isPseudo = false) (hrealb : b.isPseudo = false) :
    a.StandsBeside b := by
  have hsymm : Std.Symm fun a b : Mnemonic =>
      a.isPseudo = false → b.isPseudo = false → a.StandsBeside b :=
    ⟨fun _ _ hab hb ha => (hab ha hb).symm⟩
  exact h.apart.forall ha hb hne hreala hrealb

/-- Two real mnemonics of a valid list that have one opcode have one layout. -/
theorem Valid.format_eq {list : List Mnemonic} (h : Valid list) {a b : Mnemonic} (ha : a ∈ list)
    (hb : b ∈ list) (hreala : a.isPseudo = false) (hrealb : b.isPseudo = false)
    (hop : a.opcode = b.opcode) : a.format = b.format := by
  by_cases hne : a = b
  · rw [hne]
  · exact (h.standsBeside ha hb hne hreala hrealb hop).1

/-- The layout of an opcode in a valid list is that of every real mnemonic with the opcode. -/
theorem Valid.formatIn_eq {list : List Mnemonic} (h : Valid list) {m : Mnemonic} (hm : m ∈ list)
    (hreal : m.isPseudo = false) : formatIn list m.opcode = some m.format :=
  formatIn_eq_some (fun _ hother hreal' hop => h.format_eq hother hm hreal' hreal hop) ⟨m, hm, hreal, rfl⟩

/-- The layouts that the check for a clash tells apart. -/
theorem clashes_eq {seen : List Mnemonic} {m : Mnemonic} (hknown : m.format.Known)
    (hreal : m.isPseudo = false) :
    fault?.clashes seen m =
      (formatIn seen m.opcode).any fun format => ¬(format = m.format ∧ m.format.HasFunc) := by
  obtain ⟨name, format, opcode, func, operands, imm⟩ := m
  cases format with
  | r | ei => simp [fault?.clashes, Format.HasFunc]
  | i | j => cases hused : formatIn seen opcode <;> simp [fault?.clashes, Format.HasFunc, hused]
  | pseudo => cases hreal
  | unknown code => simp [Format.Known] at hknown

/-- A mnemonic does not clash with a valid list exactly if those of its opcode have its layout, and that
    layout has a function code. -/
theorem clashes_eq_false_iff {seen : List Mnemonic} (hseen : Valid seen) {m : Mnemonic}
    (hknown : m.format.Known) (hreal : m.isPseudo = false) :
    fault?.clashes seen m = false ↔ ∀ other ∈ seen, other.isPseudo = false →
      other.opcode = m.opcode → other.format = m.format ∧ m.format.HasFunc := by
  rw [clashes_eq hknown hreal]
  by_cases hused : ∃ other ∈ seen, other.isPseudo = false ∧ other.opcode = m.opcode
  · obtain ⟨user, huser, hreal', hop⟩ := hused
    rw [← hop, hseen.formatIn_eq huser hreal', Option.any_some, decide_eq_false_iff_not, not_not, hop]
    constructor
    · intro h other hother hreal'' hop'
      rw [hseen.format_eq hother huser hreal'' hreal' (hop'.trans hop.symm)]
      exact h
    · intro h
      exact h user huser hreal' hop
  · have hnone : formatIn seen m.opcode = none :=
      formatIn_eq_none fun other hother hreal' hop => hused ⟨other, hother, hreal', hop⟩
    rw [hnone]
    refine iff_of_true rfl fun other hother hreal' hop => ?_
    exact absurd ⟨other, hother, hreal', hop⟩ hused

/-- Beside mnemonics that do not clash, a code is free exactly if function codes differ. -/
theorem standsBeside_iff {other m : Mnemonic} (hother : other.format.Known) (hm : m.format.Known)
    (hreal' : other.isPseudo = false) (hreal : m.isPseudo = false)
    (hlayout : other.opcode = m.opcode → other.format = m.format ∧ m.format.HasFunc) :
    codeOf other ≠ codeOf m ↔ other.StandsBeside m := by
  by_cases hop : other.opcode = m.opcode
  · obtain ⟨hformat, hfunc⟩ := hlayout hop
    have hfunc' : other.format.HasFunc := hformat ▸ hfunc
    rw [codeOf_of_hasFunc hfunc, codeOf_of_hasFunc hfunc', hop]
    simp [StandsBeside, hop, hformat, hfunc]
  · have hne : codeOf other ≠ codeOf m := by
      intro hcode
      rw [← codeOf_fst hother hreal', ← codeOf_fst hm hreal, hcode] at hop
      exact hop rfl
    exact iff_of_true hne fun h => absurd h hop

/-- The tests of a mnemonic by itself. -/
theorem fits_iff {m : Mnemonic} : m.Fits ↔ ¬0x7f < m.opcode ∧
    (m.operands.find? fun op => !(OperandKind.allowed m.format).contains op) = none ∧
    ¬((funcLimit? m.format).any fun limit => limit < m.func) = true := by
  have hfunc : ((m.format = .r → m.func ≤ 0x3ff) ∧ (m.format = .ei → m.func ≤ 0xf)) ↔
      ¬((funcLimit? m.format).any fun limit => limit < m.func) = true := by
    cases m.format <;> simp [funcLimit?]
  simp [Fits, hfunc]

/-- A real mnemonic with a name of its own is without fault exactly if it passes each of the tests. -/
theorem fault?_eq_none_of_real {seen : List Mnemonic} {m : Mnemonic}
    (hname : (seen.any fun other => other.name = m.name) = false) (hreal : m.isPseudo = false) :
    fault? seen m = none ↔
      m.Fits ∧ fault?.clashes seen m = false ∧ findCode? seen (codeOf m) = none := by
  rw [fits_iff, fault?, hname, hreal, if_neg Bool.false_ne_true, if_neg Bool.false_ne_true]
  by_cases hopcode : 0x7f < m.opcode
  · simp [hopcode]
  · rw [if_neg hopcode]
    cases hoperand : m.operands.find? fun op => !(OperandKind.allowed m.format).contains op with
    | some op => simp
    | none =>
        cases (funcLimit? m.format).any fun limit => limit < m.func with
        | true => simp
        | false =>
            cases fault?.clashes seen m with
            | true => simp
            | false => cases findCode? seen (codeOf m) <;> simp [hopcode]

/-- A mnemonic is without fault exactly if it can join the ones already accepted. -/
theorem fault?_eq_none_iff {seen : List Mnemonic} (hseen : Valid seen)
    (hknown : ∀ other ∈ seen, other.format.Known) {m : Mnemonic} (hm : m.format.Known) :
    fault? seen m = none ↔ Joins seen m := by
  have hname : (seen.any fun other => other.name = m.name) = true ↔ m.name ∈ seen.map Mnemonic.name := by
    simp
  cases htaken : seen.any fun other => other.name = m.name with
  | true =>
      refine iff_of_false ?_ fun h => h.name (hname.1 htaken)
      simp [fault?, htaken]
  | false =>
      have hnew : m.name ∉ seen.map Mnemonic.name := by
        rw [← hname, htaken]
        simp
      cases hreal : m.isPseudo with
      | true =>
          refine iff_of_true (by simp [fault?, htaken, hreal]) ⟨hnew, ?_, ?_⟩
          · simp [hreal]
          · simp [hreal]
      | false =>
          rw [fault?_eq_none_of_real htaken hreal, clashes_eq_false_iff hseen hm hreal,
            findCode?_eq_none_iff]
          constructor
          · rintro ⟨hfits, hlayout, hcode⟩
            refine ⟨hnew, fun _ => hfits, fun other hother hreal' _ => ?_⟩
            exact (standsBeside_iff (hknown other hother) hm hreal' hreal (hlayout other hother hreal')).1
              (hcode other hother hreal')
          · rintro ⟨-, hfits, hapart⟩
            have hlayout : ∀ other ∈ seen, other.isPseudo = false → other.opcode = m.opcode →
                other.format = m.format ∧ m.format.HasFunc := by
              intro other hother hreal' hop
              obtain ⟨hformat, hfunc, -⟩ := hapart other hother hreal' hreal hop
              exact ⟨hformat, hformat ▸ hfunc⟩
            refine ⟨hfits hreal, hlayout, fun other hother hreal' => ?_⟩
            exact (standsBeside_iff (hknown other hother) hm hreal' hreal (hlayout other hother hreal')).2
              (hapart other hother hreal' hreal)

/-! ### The whole list -/

/-- Mnemonics are accepted exactly if they and those before them make a valid list. -/
theorem accept_eq_ok_iff {seen list accepted : List Mnemonic} (hseen : Valid seen)
    (hknown : ∀ m ∈ seen ++ list, m.format.Known) :
    accept seen list = .ok accepted ↔ accepted = seen ++ list ∧ Valid (seen ++ list) := by
  induction list generalizing seen with
  | nil =>
      rw [accept, List.append_nil, Except.ok.injEq]
      exact ⟨fun h => ⟨h.symm, hseen⟩, fun h => h.1.symm⟩
  | cons m rest ih =>
      have happend : seen ++ m :: rest = (seen ++ [m]) ++ rest := by simp
      have hstep := fault?_eq_none_iff hseen (fun other hother => hknown other (by simp [hother]))
        (hknown m (by simp))
      rw [accept, happend]
      cases hfault : fault? seen m with
      | none =>
          have hnext : Valid (seen ++ [m]) := valid_append_singleton_iff.2 ⟨hseen, hstep.1 hfault⟩
          exact ih hnext (happend ▸ hknown)
      | some e =>
          refine iff_of_false (by simp) fun h => ?_
          have hjoins := (valid_append_singleton_iff.1 h.2.of_append).2
          rw [hstep.2 hjoins] at hfault
          cases hfault

theorem valid_nil : Valid [] := ⟨List.nodup_nil, by simp, .nil⟩

/-- A list of mnemonics is an instruction set exactly if it is valid, and it is kept as it is. -/
theorem ofList_eq_ok_iff {list : List Mnemonic} (hknown : ∀ m ∈ list, m.format.Known) {tb : Table} :
    ofList list = .ok tb ↔ tb = ⟨list⟩ ∧ Valid list := by
  have haccept (accepted : List Mnemonic) : accept [] list = .ok accepted ↔ accepted = list ∧ Valid list :=
    accept_eq_ok_iff valid_nil hknown
  rw [ofList]
  cases hresult : accept [] list with
  | error e =>
      refine iff_of_false (by simp [Except.map]) fun h => ?_
      rw [(haccept list).2 ⟨rfl, h.2⟩] at hresult
      cases hresult
  | ok accepted =>
      obtain ⟨rfl, hvalid⟩ := (haccept accepted).1 hresult
      simp [Except.map, hvalid, eq_comm]

/-! ### Looking up -/

namespace Valid

variable {list : List Mnemonic} {m : Mnemonic}

/-- A name belongs to one mnemonic. -/
theorem lookup?_eq_some_iff (h : Valid list) {name : Text} :
    lookup? ⟨list⟩ name = some m ↔ m ∈ list ∧ m.name = name := by
  constructor
  · intro hfound
    exact ⟨List.mem_of_find?_eq_some hfound, by simpa using List.find?_some hfound⟩
  · rintro ⟨hm, rfl⟩
    cases hfound : lookup? ⟨list⟩ m.name with
    | none =>
        have hmissed := List.find?_eq_none.1 hfound m hm
        simp at hmissed
    | some other =>
        have hother : other ∈ list := List.mem_of_find?_eq_some hfound
        have hname : other.name = m.name := by simpa using List.find?_some hfound
        rw [List.inj_on_of_nodup_map h.names hother hm hname]

/-- An opcode belongs to one layout. -/
theorem format?_eq (h : Valid list) (hm : m ∈ list) (hreal : m.isPseudo = false) :
    format? ⟨list⟩ m.opcode = some m.format := by
  rw [format?, if_neg (UInt8.not_lt.2 (h.fits m hm hreal).1)]
  exact h.formatIn_eq hm hreal

/-- A code belongs to one real mnemonic. -/
theorem findCode?_eq (h : Valid list) (hknown : ∀ m ∈ list, m.format.Known) (hm : m ∈ list)
    (hreal : m.isPseudo = false) : findCode? list (codeOf m) = some m := by
  cases hfound : findCode? list (codeOf m) with
  | none =>
      exact absurd rfl (findCode?_eq_none_iff.1 hfound m hm hreal)
  | some other =>
      obtain ⟨hother, hreal', hcode⟩ := findCode?_eq_some hfound
      by_contra hne
      have hopcode : other.opcode = m.opcode := by
        rw [← codeOf_fst (hknown other hother) hreal', ← codeOf_fst (hknown m hm) hreal, hcode]
      obtain ⟨hformat, hfunc, hdiffers⟩ :=
        h.standsBeside hother hm (fun heq => hne (congrArg some heq)) hreal' hreal hopcode
      rw [codeOf_of_hasFunc hfunc, codeOf_of_hasFunc (hformat ▸ hfunc)] at hcode
      exact hdiffers (Prod.mk.inj hcode).2

/-- A real mnemonic is found by its opcode, and by its function code where its layout has one. -/
theorem byCode?_eq (h : Valid list) (hknown : ∀ m ∈ list, m.format.Known) (hm : m ∈ list)
    (hreal : m.isPseudo = false) {func : UInt16} (hfunc : m.format.HasFunc → func = m.func) :
    byCode? ⟨list⟩ m.opcode func = some m := by
  have hfound := h.findCode?_eq hknown hm hreal
  have hlayout := hknown m hm
  rw [byCode?, h.format?_eq hm hreal]
  rw [codeOf] at hfound
  simp only [Format.Known, List.mem_cons, List.not_mem_nil, or_false] at hlayout
  rcases hlayout with hr | hi | hj | hei | hpseudo
  · rw [hr] at hfound ⊢
    rw [hfunc (.inl hr)]
    exact hfound
  · rw [hi] at hfound ⊢
    exact hfound
  · rw [hj] at hfound ⊢
    exact hfound
  · rw [hei] at hfound ⊢
    rw [hfunc (.inr hei)]
    exact hfound
  · rw [isPseudo, hpseudo] at hreal
    cases hreal

end Valid

end Table

end VectorRisc
