/-
Module: VectorRisc.Proofs.Object.Linkable
Layer: Proofs
Purpose: Exactly which objects can be linked. Every step of linking (global symbols, entry, layout,
  relocations) succeeds under a condition on the inputs alone; the conditions together make objects
  linkable.
Imports: Mathlib.Tactic, VectorRisc.Proofs.Object.Reach
Trusted boundary: none
Main exports: Linker.merge_eq_ok_iff, Linker.entryFrom_isOk_iff, Linker.layOutAll_isOk_iff,
  Linker.relocateInputs_isOk_iff, Linker.combine_isOk_iff, Linker.Linkable, Linker.link_isOk_iff
Open obligations: none
-/
import Mathlib.Tactic
import VectorRisc.Proofs.Object.Reach

namespace VectorRisc

namespace Linker

/-! ### Global symbols -/

/-- The symbols of an input that all inputs see. -/
def Input.globals (input : Input) : List Symbol :=
  input.file.symbols.filter fun sym => sym.scope = .global

/-- The labels of the global symbols of some inputs, each as often as it is defined. -/
def globalLabels (inputs : List Input) : List Text :=
  inputs.flatMap fun input => input.globals.map Symbol.label

/-- The global symbols of the inputs from a place on, with their owners. -/
def globalsFrom : (index : Nat) → List Input → List Global
  | _, [] => []
  | index, input :: rest => input.globals.map (Global.mk index) ++ globalsFrom (index + 1) rest

theorem mem_globalsFrom {index : Nat} {inputs : List Input} {g : Global} :
    g ∈ globalsFrom index inputs ↔
      ∃ n input, inputs[n]? = some input ∧ g.owner = index + n ∧ g.symbol ∈ input.globals := by
  induction inputs generalizing index with
  | nil => simp [globalsFrom]
  | cons input rest ih =>
      rw [globalsFrom, List.mem_append, ih]
      constructor
      · rintro (hfirst | ⟨n, other, hother, howner, hsym⟩)
        · obtain ⟨sym, hsym, rfl⟩ := List.mem_map.1 hfirst
          exact ⟨0, input, rfl, rfl, hsym⟩
        · exact ⟨n + 1, other, hother, by omega, hsym⟩
      · rintro ⟨n, other, hother, howner, hsym⟩
        cases n with
        | zero =>
            obtain rfl : input = other := Option.some.inj hother
            obtain ⟨owner, sym⟩ := g
            obtain rfl : owner = index := howner
            exact .inl (List.mem_map_of_mem hsym)
        | succ n => exact .inr ⟨n, other, hother, by omega, hsym⟩

theorem map_label_globalsFrom (index : Nat) (inputs : List Input) :
    (globalsFrom index inputs).map (fun g => g.symbol.label) = globalLabels inputs := by
  induction inputs generalizing index with
  | nil => rfl
  | cons input rest ih =>
      rw [globalsFrom, List.map_append, ih, List.map_map]
      rfl

/-- Symbols are added to those that are known if no label of a global one is taken. -/
theorem mergeSymbols_eq_ok_iff {inputs : List Input} {index : Nat} {name : Text} {symbols : List Symbol}
    {known after : List Global} :
    mergeSymbols inputs index name symbols known = .ok after ↔
      let new := symbols.filter fun sym => sym.scope = .global
      after = (new.map (Global.mk index)).reverse ++ known ∧ (new.map Symbol.label).Nodup ∧
        ∀ g ∈ known, g.symbol.label ∉ new.map Symbol.label := by
  induction symbols generalizing known with
  | nil => simp [mergeSymbols, eq_comm]
  | cons sym rest ih =>
      rw [mergeSymbols]
      by_cases hscope : sym.scope = .global
      · rw [if_neg (not_not.2 hscope), List.filter_cons_of_pos (by simpa using hscope)]
        cases hfound : known.find? fun g => g.symbol.label = sym.label with
        | some g =>
            have htaken := List.find?_some hfound
            have hmem := List.mem_of_find?_eq_some hfound
            simp only [reduceCtorEq, false_iff]
            rintro ⟨-, -, hfree⟩
            exact hfree g hmem (by simpa using Or.inl (of_decide_eq_true htaken))
        | none =>
            have hfree : ∀ g ∈ known, g.symbol.label ≠ sym.label := by
              simpa using List.find?_eq_none.1 hfound
            simp only [ih, List.forall_mem_cons]
            simp only [List.map_cons, List.reverse_cons, List.append_assoc, List.singleton_append,
              List.nodup_cons, List.mem_cons, not_or]
            constructor
            · rintro ⟨rfl, hnodup, hself, hothers⟩
              exact ⟨rfl, ⟨hself, hnodup⟩, fun g hg => ⟨hfree g hg, hothers g hg⟩⟩
            · rintro ⟨rfl, ⟨hself, hnodup⟩, hothers⟩
              exact ⟨rfl, hnodup, hself, fun g hg => (hothers g hg).2⟩
      · rw [if_pos hscope, List.filter_cons_of_neg (by simpa using hscope), ih]

/-- The global symbols of inputs are added to those that are known if no label is taken. -/
theorem mergeFrom_eq_ok_iff {all inputs : List Input} {index : Nat} {known after : List Global} :
    mergeFrom all index inputs known = .ok after ↔
      after = (globalsFrom index inputs).reverse ++ known ∧ (globalLabels inputs).Nodup ∧
        ∀ g ∈ known, g.symbol.label ∉ globalLabels inputs := by
  induction inputs generalizing index known with
  | nil => simp [mergeFrom, globalsFrom, globalLabels, eq_comm]
  | cons input rest ih =>
      have hlabels : globalLabels (input :: rest) =
          input.globals.map Symbol.label ++ globalLabels rest := rfl
      have hsymbols : ∀ next, mergeSymbols all index input.name input.file.symbols known = .ok next ↔
          next = (input.globals.map (Global.mk index)).reverse ++ known ∧
            (input.globals.map Symbol.label).Nodup ∧
              ∀ g ∈ known, g.symbol.label ∉ input.globals.map Symbol.label :=
        fun _ => mergeSymbols_eq_ok_iff
      rw [mergeFrom, globalsFrom, hlabels, List.nodup_append']
      cases hmerge : mergeSymbols all index input.name input.file.symbols known with
      | error e =>
          simp only [reduceCtorEq, false_iff]
          rintro ⟨-, ⟨hown, -, -⟩, hfree⟩
          have hadded := (hsymbols _).2 ⟨rfl, hown, fun g hg hmem =>
            hfree g hg (List.mem_append_left _ hmem)⟩
          rw [hmerge] at hadded
          cases hadded
      | ok next =>
          obtain ⟨rfl, hown, hfree⟩ := (hsymbols next).1 hmerge
          simp only [ih, List.reverse_append, List.append_assoc]
          refine and_congr_right fun _ => ?_
          constructor
          · rintro ⟨hrest, hothers⟩
            refine ⟨⟨hown, hrest, ?_⟩, ?_⟩
            · rintro label hlabel
              obtain ⟨sym, hsym, rfl⟩ := List.mem_map.1 hlabel
              refine hothers ⟨index, sym⟩ (List.mem_append_left _ (List.mem_reverse.2 ?_))
              exact List.mem_map_of_mem hsym
            · intro g hg hmem
              rcases List.mem_append.1 hmem with hmine | hlater
              · exact hfree g hg hmine
              · exact hothers g (List.mem_append_right _ hg) hlater
          · rintro ⟨⟨-, hrest, hapart⟩, hothers⟩
            refine ⟨hrest, ?_⟩
            intro g hg hmem
            rcases List.mem_append.1 hg with hmine | hknown
            · obtain ⟨sym, hsym, rfl⟩ := List.mem_map.1 (List.mem_reverse.1 hmine)
              exact hapart (List.mem_map_of_mem hsym) hmem
            · exact hothers g hknown (List.mem_append_right _ hmem)

/-- The global symbols can be merged if no two of them have a label in common. -/
theorem merge_eq_ok_iff {inputs : List Input} {globals : List Global} :
    merge inputs = .ok globals ↔
      globals = (globalsFrom 0 inputs).reverse ∧ (globalLabels inputs).Nodup := by
  rw [merge, mergeFrom_eq_ok_iff]
  simp

/-! ### Entry -/

/-- One of the inputs has an entry, and at most one starts the kernel's code, counting what was found. -/
theorem entryFrom_isOk_iff {index : Nat} {kernel : Bool} {found : Option Nat} {inputs : List Input} :
    (∃ entry, entryFrom index kernel found inputs = .ok entry) ↔
      found.isSome.toNat + inputs.countP (fun input => input.file.entry ≠ 0) = 1 ∧
        kernel.toNat + inputs.countP (fun input => input.file.kernelStart) ≤ 1 := by
  induction inputs generalizing index kernel found with
  | nil =>
      have hkernel := Bool.toNat_le kernel
      cases found with
      | none => simp [entryFrom]
      | some index => simp [entryFrom, hkernel]
  | cons input rest ih =>
      simp only [entryFrom, List.countP_cons, decide_eq_true_eq]
      split
      · rename_i htwice
        simp only [Bool.and_eq_true] at htwice
        simp [htwice]
      · rename_i honce
        have hkernel : (kernel || input.file.kernelStart).toNat =
            kernel.toNat + if input.file.kernelStart = true then 1 else 0 := by
          cases hstart : input.file.kernelStart <;> cases kernel <;> simp [hstart] at honce ⊢
        split
        · rename_i hentry
          rw [ih, hkernel]
          simp only [hentry, ne_eq, not_true_eq_false, if_false]
          omega
        · rename_i hentry
          split
          · rename_i hsecond
            simp only [reduceCtorEq, exists_false, hsecond, Bool.toNat_true, ne_eq, false_iff]
            omega
          · rename_i hfirst
            rw [ih, hkernel]
            simp only [Bool.not_eq_true] at hfirst
            simp only [hfirst, Option.isSome_some, Bool.toNat_true, Bool.toNat_false, ne_eq]
            omega

/-- The entry that is found is that of the one input that has any. -/
theorem entryFrom_eq_ok {index entry : Nat} {kernel : Bool} {found : Option Nat} {inputs : List Input}
    (h : entryFrom index kernel found inputs = .ok entry) :
    (found = some entry ∧ ∀ input ∈ inputs, input.file.entry = 0) ∨
      found = none ∧ ∃ n input, entry = index + n ∧ inputs[n]? = some input ∧ input.file.entry ≠ 0 ∧
        ∀ m other, inputs[m]? = some other → other.file.entry ≠ 0 → m = n := by
  induction inputs generalizing index kernel found with
  | nil =>
      simp only [entryFrom] at h
      split at h
      · cases h
        exact .inl ⟨rfl, by simp⟩
      · cases h
  | cons input rest ih =>
      simp only [entryFrom] at h
      split at h
      · cases h
      · split at h
        · rename_i hzero
          rcases ih h with ⟨rfl, hrest⟩ | ⟨rfl, n, owner, rfl, howner, hentry, hsole⟩
          · exact .inl ⟨rfl, List.forall_mem_cons.2 ⟨hzero, hrest⟩⟩
          · refine .inr ⟨rfl, n + 1, owner, by omega, howner, hentry, ?_⟩
            intro m other hother hnonzero
            cases m with
            | zero =>
                obtain rfl : input = other := Option.some.inj hother
                exact absurd hzero hnonzero
            | succ m => rw [hsole m other hother hnonzero]
        · rename_i hnonzero
          split at h
          · cases h
          · rename_i hfirst
            rcases ih h with ⟨hself, hrest⟩ | ⟨hnone, -⟩
            · refine .inr ⟨by simpa using hfirst, 0, input, (Option.some.inj hself).symm, rfl, hnonzero, ?_⟩
              intro m other hother hsecond
              cases m with
              | zero => rfl
              | succ m => exact absurd (hrest other (List.mem_of_getElem? hother)) hsecond
            · cases hnone

/-! ### Layout -/

/-- The addresses that sections get behind an image of some length, each at the next aligned offset from
    the address of the segment; the image is then padded up to the offset and extended by the section. -/
def basesFrom (s : Segment) (addr : UInt64) : (length : Nat) → List (Nat × Input) → List (Nat × UInt64)
  | _, [] => []
  | length, (index, input) :: rest =>
    let offset := Bytes.roundUp (UInt64.ofNat length) s.align
    (index, addr + offset) :: basesFrom s addr (max length offset.toNat + input.extent s) rest

/-- The address of the section of the input at a place. -/
def baseIn (inputs : List Input) (s : Segment) (index : Nat) : UInt64 :=
  ((basesFrom s (segmentAddr inputs s) 0 (order inputs s)).lookup index).getD 0

theorem map_fst_basesFrom (s : Segment) (addr : UInt64) (length : Nat) (inputs : List (Nat × Input)) :
    (basesFrom s addr length inputs).map Prod.fst = inputs.map Prod.fst := by
  induction inputs generalizing length with
  | nil => rfl
  | cons p rest ih => simp [basesFrom, ih]

/-- What a place is paired with is found there, if no place is taken twice. -/
theorem lookup_of_mem {α : Type} {l : List (Nat × α)} {index : Nat} {a : α}
    (hnodup : (l.map Prod.fst).Nodup) (h : (index, a) ∈ l) : l.lookup index = some a := by
  induction l with
  | nil => cases h
  | cons p rest ih =>
      obtain ⟨hfirst, hrest⟩ := List.nodup_cons.1 hnodup
      rcases List.mem_cons.1 h with rfl | hlater
      · rw [List.lookup_cons_self]
      · have hne : index ≠ p.1 := by
          rintro rfl
          exact hfirst (List.mem_map.2 ⟨_, hlater, rfl⟩)
        rw [List.lookup_cons, beq_false_of_ne hne]
        exact ih hrest hlater

theorem size_append_eq (image : ByteArray) (offset : Nat) {input : Input} {s : Segment}
    (h : (input.bytes s).size < 2 ^ 64) :
    (append image offset (input.file.sections.get s)).size = max image.size offset + input.extent s := by
  have hbytes := Input.size_bytes_le h
  simp only [Input.bytes, Input.extent] at hbytes ⊢
  simp only [append, ByteArray.size_append, Bytes.size_zeros]
  omega

theorem not_wraps_iff {a b : UInt64} : ¬a + b < a ↔ a.toNat + b.toNat < 2 ^ 64 := by
  refine ⟨add_lt_of_not_lt, fun h => ?_⟩
  rw [UInt64.lt_iff_toNat_lt, UInt64.toNat_add]
  omega

/-- What holds of the sections at the addresses that they get holds of the first one and of those behind
    it. -/
theorem forall_basesFrom_cons {P : Nat × Input → UInt64 → Prop} {s : Segment} {addr : UInt64} {length : Nat}
    {index : Nat} {input : Input} {rest : List (Nat × Input)}
    (hnodup : (((index, input) :: rest).map Prod.fst).Nodup) :
    (∀ p ∈ (index, input) :: rest, ∀ base,
        (p.1, base) ∈ basesFrom s addr length ((index, input) :: rest) → P p base) ↔
      let offset := Bytes.roundUp (UInt64.ofNat length) s.align
      P (index, input) (addr + offset) ∧ ∀ p ∈ rest, ∀ base,
        (p.1, base) ∈ basesFrom s addr (max length offset.toNat + input.extent s) rest → P p base := by
  obtain ⟨hnew, -⟩ := List.nodup_cons.1 hnodup
  have hplaces (length : Nat) {q : Nat × UInt64} (hq : q ∈ basesFrom s addr length rest) :
      q.1 ∈ rest.map Prod.fst := by
    rw [← map_fst_basesFrom s addr length]
    exact List.mem_map_of_mem hq
  simp only [basesFrom]
  constructor
  · intro hall
    exact ⟨hall (index, input) List.mem_cons_self _ List.mem_cons_self,
      fun p hp base hbase => hall p (List.mem_cons_of_mem _ hp) base (List.mem_cons_of_mem _ hbase)⟩
  · rintro ⟨hself, hothers⟩ p hp base hbase
    rcases List.mem_cons.1 hp with rfl | hlater
    · rcases List.mem_cons.1 hbase with hfirst | hother
      · rw [(Prod.mk.inj hfirst).2]
        exact hself
      · exact absurd (hplaces _ hother) hnew
    · rcases List.mem_cons.1 hbase with hfirst | hother
      · have hplace : p.1 = index := (Prod.mk.inj hfirst).1
        have htaken : p.1 ∈ rest.map Prod.fst := List.mem_map_of_mem hlater
        rw [hplace] at htaken
        exact absurd htaken hnew
      · exact hothers p hlater base hother

/-- Sections are laid out if none of them wraps around the end of the address space and each of them ends
    within the greatest image. -/
theorem layOut_isOk_iff {s : Segment} {addr : UInt64} {rest : List (Nat × Input)} {layout : Layout}
    (hsize : ∀ p ∈ rest, (p.2.bytes s).size < 2 ^ 64) (hnodup : (rest.map Prod.fst).Nodup)
    (log : List Event) :
    (∃ out, layOut s addr rest layout log = .ok out) ↔
      ∀ p ∈ rest, ∀ base, (p.1, base) ∈ basesFrom s addr layout.image.size rest →
        base.toNat + p.2.extent s < 2 ^ 64 ∧ (base - addr).toNat + p.2.extent s ≤ Bytes.lengthMax := by
  induction rest generalizing layout log with
  | nil => simp [layOut]
  | cons p rest ih =>
      obtain ⟨index, input⟩ := p
      have hlater (next : Layout) (log : List Event) :
          (∃ out, layOut s addr rest next log = .ok out) ↔
            ∀ q ∈ rest, ∀ base, (q.1, base) ∈ basesFrom s addr next.image.size rest →
              base.toNat + q.2.extent s < 2 ^ 64 ∧ (base - addr).toNat + q.2.extent s ≤ Bytes.lengthMax :=
        ih (fun q hq => hsize q (List.mem_cons_of_mem _ hq)) (List.nodup_cons.1 hnodup).2 log
      have hlength : UInt64.ofNat layout.image.size = Bytes.size64 layout.image := rfl
      have hoffset (offset : UInt64) : addr + offset - addr = offset := by
        rw [UInt64.add_comm, UInt64.add_sub_cancel]
      rw [forall_basesFrom_cons hnodup]
      simp only [layOut_cons_eq_ok_iff, exists_and_left, not_wraps_iff, hlater, hlength,
        size_append_eq _ _ (hsize _ List.mem_cons_self), hoffset, and_assoc, Input.extent]

/-- Sections none of which wraps are laid out, or one of them takes the image out of bounds. -/
theorem layOut_of_room {s : Segment} {addr : UInt64} {rest : List (Nat × Input)} {layout : Layout}
    (hsize : ∀ p ∈ rest, (p.2.bytes s).size < 2 ^ 64) (hnodup : (rest.map Prod.fst).Nodup)
    (hroom : ∀ p ∈ rest, ∀ base, (p.1, base) ∈ basesFrom s addr layout.image.size rest →
      base.toNat + p.2.extent s < 2 ^ 64) (log : List Event) :
    (∃ out, layOut s addr rest layout log = .ok out) ∨
      ∃ log', layOut s addr rest layout log = .error (log', .outOfBounds) := by
  induction rest generalizing layout log with
  | nil => exact .inl ⟨_, rfl⟩
  | cons p rest ih =>
      obtain ⟨index, input⟩ := p
      obtain ⟨hself, hothers⟩ := (forall_basesFrom_cons hnodup).1 hroom
      simp only [layOut]
      split
      · rename_i hwraps
        exact absurd hwraps (not_wraps_iff.2 hself)
      · split
        · exact .inr ⟨_, rfl⟩
        · refine ih (fun q hq => hsize q (List.mem_cons_of_mem _ hq)) (List.nodup_cons.1 hnodup).2 ?_ _
          rw [size_append_eq _ _ (hsize _ List.mem_cons_self)]
          exact hothers

/-- Sections each of which ends within the greatest image do not take it out of bounds. -/
theorem layOut_ne {s : Segment} {addr : UInt64} {rest : List (Nat × Input)} {layout : Layout}
    (hsize : ∀ p ∈ rest, (p.2.bytes s).size < 2 ^ 64) (hnodup : (rest.map Prod.fst).Nodup)
    (hbounds : ∀ p ∈ rest, ∀ base, (p.1, base) ∈ basesFrom s addr layout.image.size rest →
      (base - addr).toNat + p.2.extent s ≤ Bytes.lengthMax) {log log' : List Event} :
    layOut s addr rest layout log ≠ .error (log', .outOfBounds) := by
  induction rest generalizing layout log with
  | nil => simp [layOut]
  | cons p rest ih =>
      obtain ⟨index, input⟩ := p
      obtain ⟨hself, hothers⟩ := (forall_basesFrom_cons hnodup).1 hbounds
      simp only [layOut]
      split
      · simp
      · split
        · rename_i hlong
          rw [UInt64.add_comm, UInt64.add_sub_cancel] at hself
          exact absurd hself (Nat.not_le.2 hlong)
        · refine ih (fun q hq => hsize q (List.mem_cons_of_mem _ hq)) (List.nodup_cons.1 hnodup).2 ?_
          rw [size_append_eq _ _ (hsize _ List.mem_cons_self)]
          exact hothers

/-- The addresses that a layout gives to its sections. -/
theorem layOut_bases {s : Segment} {addr : UInt64} {rest : List (Nat × Input)} {layout after : Layout}
    {log log' : List Event} (hsize : ∀ p ∈ rest, (p.2.bytes s).size < 2 ^ 64)
    (h : layOut s addr rest layout log = .ok (after, log')) :
    after.bases = (basesFrom s addr layout.image.size rest).reverse ++ layout.bases := by
  induction rest generalizing layout log with
  | nil =>
      cases h
      rfl
  | cons p rest ih =>
      obtain ⟨index, input⟩ := p
      obtain ⟨-, -, hrest⟩ := layOut_cons_eq_ok_iff.1 h
      have hlater := ih (fun q hq => hsize q (List.mem_cons_of_mem _ hq)) hrest
      rw [hlater, size_append_eq _ _ (hsize _ List.mem_cons_self)]
      simp [basesFrom, Bytes.size64]

theorem baseIn_of_mem {inputs : List Input} {s : Segment} {index : Nat} {base : UInt64}
    (h : (index, base) ∈ basesFrom s (segmentAddr inputs s) 0 (order inputs s)) :
    baseIn inputs s index = base := by
  have hnodup := nodup_order inputs s
  rw [← map_fst_basesFrom s (segmentAddr inputs s) 0] at hnodup
  rw [baseIn, lookup_of_mem hnodup h, Option.getD_some]

/-- Every input has an address in every segment. -/
theorem mem_basesFrom {inputs : List Input} {index : Nat} {input : Input}
    (h : inputs[index]? = some input) (s : Segment) :
    (index, baseIn inputs s index) ∈ basesFrom s (segmentAddr inputs s) 0 (order inputs s) := by
  have hplace : index ∈ (order inputs s).map Prod.fst := List.mem_map.2 ⟨_, mem_order.2 h, rfl⟩
  rw [← map_fst_basesFrom s (segmentAddr inputs s) 0] at hplace
  obtain ⟨⟨place, base⟩, hmem, rfl⟩ := List.mem_map.1 hplace
  rw [baseIn_of_mem hmem]
  exact hmem

/-- How far the section of the input at a place is from the start of the image. -/
def offsetIn (inputs : List Input) (s : Segment) (index : Nat) : Nat :=
  (baseIn inputs s index - segmentAddr inputs s).toNat

/-- A condition on the addresses that the sections of a segment get is one on all inputs. -/
theorem forall_order_iff {P : Input → UInt64 → Prop} {inputs : List Input} {s : Segment} :
    (∀ p ∈ order inputs s, ∀ base,
        (p.1, base) ∈ basesFrom s (segmentAddr inputs s) 0 (order inputs s) → P p.2 base) ↔
      ∀ index input, inputs[index]? = some input → P input (baseIn inputs s index) := by
  constructor
  · intro hall index input hinput
    exact hall (index, input) (mem_order.2 hinput) _ (mem_basesFrom hinput s)
  · intro hall p hp base hbase
    rw [← baseIn_of_mem hbase]
    exact hall p.1 p.2 (mem_order.1 hp)

theorem order_size {inputs : List Input} (hsize : ∀ input ∈ inputs, ∀ s, (input.bytes s).size < 2 ^ 64)
    (s : Segment) : ∀ p ∈ order inputs s, (p.2.bytes s).size < 2 ^ 64 :=
  fun p hp => hsize p.2 (List.mem_of_getElem? (mem_order.1 hp)) s

/-- Inputs are laid out if none of their sections wraps around the end of the address space and each of them
    ends within the greatest image. -/
theorem layOutAll_isOk_iff {inputs : List Input}
    (hsize : ∀ input ∈ inputs, ∀ s, (input.bytes s).size < 2 ^ 64) :
    (∃ out, layOutAll inputs = .ok out) ↔
      ∀ s index input, inputs[index]? = some input →
        (baseIn inputs s index).toNat + input.extent s < 2 ^ 64 ∧
          offsetIn inputs s index + input.extent s ≤ Bytes.lengthMax := by
  have hiff (s : Segment) (log : List Event) :
      (∃ out, layOut s (segmentAddr inputs s) (order inputs s) {} log = .ok out) ↔
        ∀ index input, inputs[index]? = some input →
          (baseIn inputs s index).toNat + input.extent s < 2 ^ 64 ∧
            offsetIn inputs s index + input.extent s ≤ Bytes.lengthMax := by
    rw [layOut_isOk_iff (order_size hsize s) (nodup_order inputs s) log]
    exact forall_order_iff (P := fun input base => base.toNat + input.extent s < 2 ^ 64 ∧
      (base - segmentAddr inputs s).toNat + input.extent s ≤ Bytes.lengthMax)
  constructor
  · rintro ⟨⟨layouts, log⟩, hlaid⟩ s
    obtain ⟨before, after, hout⟩ := layOutAll_eq_ok hlaid s
    exact (hiff s before).1 ⟨_, hout⟩
  · intro hall
    obtain ⟨⟨text, log1⟩, htext⟩ := (hiff .text []).2 (hall .text)
    obtain ⟨⟨data, log2⟩, hdata⟩ := (hiff .data log1).2 (hall .data)
    obtain ⟨⟨ktext, log3⟩, hktext⟩ := (hiff .ktext log2).2 (hall .ktext)
    obtain ⟨⟨kdata, log4⟩, hkdata⟩ := (hiff .kdata log3).2 (hall .kdata)
    rw [layOutAll]
    exact ⟨_, bind_eq_ok.2 ⟨_, htext, bind_eq_ok.2 ⟨_, hdata, bind_eq_ok.2 ⟨_, hktext,
      bind_eq_ok.2 ⟨_, hkdata, rfl⟩⟩⟩⟩⟩

/-- Inputs none of whose sections wraps are laid out, or one of them takes an image out of bounds. -/
theorem layOutAll_of_room {inputs : List Input}
    (hsize : ∀ input ∈ inputs, ∀ s, (input.bytes s).size < 2 ^ 64)
    (hroom : ∀ s index input, inputs[index]? = some input →
      (baseIn inputs s index).toNat + input.extent s < 2 ^ 64) :
    (∃ out, layOutAll inputs = .ok out) ∨ ∃ log, layOutAll inputs = .error (log, .outOfBounds) := by
  have hsegment (s : Segment) (log : List Event) :
      (∃ out, layOut s (segmentAddr inputs s) (order inputs s) {} log = .ok out) ∨
        ∃ log', layOut s (segmentAddr inputs s) (order inputs s) {} log = .error (log', .outOfBounds) :=
    layOut_of_room (order_size hsize s) (nodup_order inputs s)
      ((forall_order_iff (P := fun input base => base.toNat + input.extent s < 2 ^ 64)).2 (hroom s)) log
  simp only [layOutAll, bind, Except.bind]
  rcases hsegment .text [] with ⟨⟨text, log1⟩, htext⟩ | ⟨log, hlong⟩
  · rcases hsegment .data log1 with ⟨⟨data, log2⟩, hdata⟩ | ⟨log, hlong⟩
    · rcases hsegment .ktext log2 with ⟨⟨ktext, log3⟩, hktext⟩ | ⟨log, hlong⟩
      · rcases hsegment .kdata log3 with ⟨⟨kdata, log4⟩, hkdata⟩ | ⟨log, hlong⟩
        · exact .inl ⟨_, by simp only [htext, hdata, hktext, hkdata]; rfl⟩
        · exact .inr ⟨log, by simp only [htext, hdata, hktext, hlong]⟩
      · exact .inr ⟨log, by simp only [htext, hdata, hlong]⟩
    · exact .inr ⟨log, by simp only [htext, hlong]⟩
  · exact .inr ⟨log, by simp only [hlong]⟩

/-- Inputs stand where they are laid out. -/
theorem baseOf_eq {inputs : List Input} (hsize : ∀ input ∈ inputs, ∀ s, (input.bytes s).size < 2 ^ 64)
    {layouts : PerSegment Layout} {log : List Event} (hlaid : layOutAll inputs = .ok (layouts, log))
    (s : Segment) {index : Nat} {input : Input} (h : inputs[index]? = some input) :
    (layouts.get s).baseOf index = baseIn inputs s index := by
  obtain ⟨before, after, hout⟩ := layOutAll_eq_ok hlaid s
  have hsizes : ∀ p ∈ order inputs s, (p.2.bytes s).size < 2 ^ 64 :=
    fun p hp => hsize p.2 (List.mem_of_getElem? (mem_order.1 hp)) s
  have hbases : (layouts.get s).bases =
      (basesFrom s (segmentAddr inputs s) 0 (order inputs s)).reverse := by
    rw [layOut_bases hsizes hout]
    exact List.append_nil _
  have hnodup : ((layouts.get s).bases.map Prod.fst).Nodup := by
    rw [hbases, List.map_reverse, List.nodup_reverse, map_fst_basesFrom]
    exact nodup_order inputs s
  have hmem : (index, baseIn inputs s index) ∈ (layouts.get s).bases := by
    rw [hbases, List.mem_reverse]
    exact mem_basesFrom h s
  rw [Layout.baseOf, lookup_of_mem hnodup hmem, Option.getD_some]

/-! ### Labels -/

/-- The label of a relocation stands for an address: that of a global symbol of any input, or that of the
    first symbol of its own object. -/
def Refers (inputs : List Input) (index : Nat) (input : Input) (r : Relocation) (addr : UInt64) : Prop :=
  if r.scope = .global then
    ∃ owner other sym, inputs[owner]? = some other ∧ sym ∈ other.globals ∧ sym.label = r.label ∧
      addr = baseIn inputs sym.kind.segment owner + sym.position
  else
    ∃ sym, input.file.symbol? r.label = some sym ∧
      addr = baseIn inputs sym.kind.segment index + sym.position

/-- The first of some elements with distinct keys that has a key is the one that has it. -/
theorem find?_eq_some_iff_of_nodup {α β : Type} [DecidableEq β] {f : α → β} {l : List α}
    (hnodup : (l.map f).Nodup) {b : β} {a : α} :
    l.find? (fun a => f a = b) = some a ↔ a ∈ l ∧ f a = b := by
  constructor
  · intro h
    exact ⟨List.mem_of_find?_eq_some h, by simpa using List.find?_some h⟩
  · rintro ⟨hmem, rfl⟩
    cases hfound : l.find? fun other => f other = f a with
    | none => exact absurd (List.find?_eq_none.1 hfound a hmem) (by simp)
    | some other =>
        have hsame : f other = f a := by simpa using List.find?_some hfound
        rw [List.inj_on_of_nodup_map hnodup (List.mem_of_find?_eq_some hfound) hmem hsame]

/-- A target is found if the label stands for it. -/
theorem target?_eq_some_iff {inputs : List Input} {globals : List Global} {layouts : PerSegment Layout}
    (hbase : ∀ s index input, inputs[index]? = some input →
      (layouts.get s).baseOf index = baseIn inputs s index)
    (hmerge : merge inputs = .ok globals) {index : Nat} {input : Input}
    (hinput : inputs[index]? = some input) {r : Relocation} {addr : UInt64} :
    target? (sceneOf inputs globals layouts) index input.file r = some addr ↔
      Refers inputs index input r addr := by
  obtain ⟨rfl, hlabels⟩ := merge_eq_ok_iff.1 hmerge
  have hnodup : ((globalsFrom 0 inputs).reverse.map fun g => g.symbol.label).Nodup := by
    rw [List.map_reverse, List.nodup_reverse, map_label_globalsFrom]
    exact hlabels
  simp only [target?, Refers, sceneOf]
  split
  · simp only [Option.map_map, Option.map_eq_some_iff, Function.comp_apply,
      find?_eq_some_iff_of_nodup hnodup, List.mem_reverse, mem_globalsFrom, Nat.zero_add]
    constructor
    · rintro ⟨g, ⟨⟨owner, other, hother, rfl, hsym⟩, hlabel⟩, rfl⟩
      exact ⟨g.owner, other, g.symbol, hother, hsym, hlabel, by rw [hbase _ _ _ hother]⟩
    · rintro ⟨owner, other, sym, hother, hsym, hlabel, rfl⟩
      exact ⟨⟨owner, sym⟩, ⟨⟨owner, other, hother, rfl, hsym⟩, hlabel⟩, by rw [hbase _ _ _ hother]⟩
  · simp only [Option.map_map, Option.map_eq_some_iff, Function.comp_apply, hbase _ _ _ hinput]
    constructor
    · rintro ⟨sym, hsym, rfl⟩
      exact ⟨sym, hsym, rfl⟩
    · rintro ⟨sym, hsym, rfl⟩
      exact ⟨sym, hsym, rfl⟩

/-! ### What can be linked -/

/-- A relocation can be applied: its label stands for an address, its words lie in the bytes of its own
    object, and the address is in reach of the instruction. -/
def Resolves (inputs : List Input) (index : Nat) (input : Input) (r : Relocation) : Prop :=
  ∃ addr, Refers inputs index input r addr ∧ r.stop ≤ (input.bytes r.kind.segment).size ∧
    ∀ what, r.kind.patch? = some what →
      what.InReach (baseIn inputs r.kind.segment index + r.position) addr

/-- Objects can be linked. -/
structure Linkable (inputs : List Input) : Prop where
  nonempty : inputs ≠ []
  /-- No two global symbols share a label. -/
  distinct : (globalLabels inputs).Nodup
  /-- One object has an entry, and at most one starts the kernel's code. -/
  entry : inputs.countP (fun input => input.file.entry ≠ 0) = 1
  kernelStart : inputs.countP (fun input => input.file.kernelStart) ≤ 1
  /-- No section reaches around the end of the address space, from the address that it has. -/
  room : ∀ s index input, inputs[index]? = some input →
    (baseIn inputs s index).toNat + input.extent s < 2 ^ 64
  resolves : ∀ index input, inputs[index]? = some input → ∀ r ∈ input.file.relocations,
    Resolves inputs index input r

/-- Every section ends within the greatest image that there can be. -/
def InBounds (inputs : List Input) : Prop :=
  ∀ s index input, inputs[index]? = some input →
    offsetIn inputs s index + input.extent s ≤ Bytes.lengthMax

/-- All relocations of objects that are laid out can be applied if each of them can. -/
theorem relocateInputs_isOk_iff {inputs : List Input}
    (hsize : ∀ input ∈ inputs, ∀ s, (input.bytes s).size < 2 ^ 64)
    (hposition : ∀ input ∈ inputs, ∀ r ∈ input.file.relocations, r.position.toNat ≤ 2 ^ 64 - 17)
    {globals : List Global} (hmerge : merge inputs = .ok globals) {layouts : PerSegment Layout}
    {placed : List Event} (hlaid : layOutAll inputs = .ok (layouts, placed)) :
    (∃ out, relocateInputs (sceneOf inputs globals layouts) 0 inputs
        (PerSegment.ofFn fun s => (layouts.get s).image) placed = .ok out) ↔
      ∀ index input, inputs[index]? = some input → ∀ r ∈ input.file.relocations,
        Resolves inputs index input r := by
  have hsized : Sized layouts (PerSegment.ofFn fun s => (layouts.get s).image) := by
    intro s
    rw [PerSegment.get_ofFn]
  have hbase : ∀ s index input, inputs[index]? = some input →
      (layouts.get s).baseOf index = baseIn inputs s index :=
    fun s _ _ hinput => baseOf_eq hsize hlaid s hinput
  have hstep : ∀ j ∈ jobsFrom 0 inputs, ∀ images, Sized layouts images →
      ((∃ out, relocate (sceneOf inputs globals layouts) j.index j.input j.relocation images = .ok out) ↔
        Resolves inputs j.index j.input j.relocation) := by
    intro j hj images himages
    obtain ⟨n, hindex, hinput, hr⟩ := mem_jobsFrom.1 hj
    rw [Nat.zero_add] at hindex
    subst hindex
    have hmem := List.mem_of_getElem? hinput
    have hstop : j.relocation.stop < 2 ^ 64 := by
      have hwords := wordsOf_le j.relocation.kind
      have hfar := hposition j.input hmem j.relocation hr
      rw [Relocation.stop]
      omega
    have hchecked := Job.checked_iff (hsize j.input hmem j.segment) hstop
    rw [(relocate_cases fun h => Job.room hlaid hinput (hchecked.1 h) himages globals).1, hchecked]
    have hpc : j.pc (sceneOf inputs globals layouts) =
        baseIn inputs j.relocation.kind.segment j.index + j.relocation.position := by
      rw [← hbase _ _ _ hinput]
      rfl
    simp only [Resolves, target?_eq_some_iff hbase hmerge hinput, hpc, Job.segment]
  have hchain := exists_chain_iff hstep hsized
  constructor
  · rintro ⟨⟨after, log⟩, hout⟩ index input hinput r hr
    exact hchain.1 ⟨after, relocateInputs_chain hout⟩ ⟨index, input, r⟩
      (mem_jobsFrom.2 ⟨index, (Nat.zero_add index).symm, hinput, hr⟩)
  · intro hall
    obtain ⟨after, hafter⟩ := hchain.2 fun j hj => by
      obtain ⟨n, hindex, hinput, hr⟩ := mem_jobsFrom.1 hj
      rw [Nat.zero_add] at hindex
      rw [hindex]
      exact hall n j.input hinput j.relocation hr
    obtain ⟨log, hout⟩ := relocateInputs_of_chain placed hafter
    exact ⟨_, hout⟩

/-- Objects are combined if each of the steps of linking succeeds. -/
theorem combine_isOk_iff (inputs : List Input) :
    (∃ out, combine inputs = .ok out) ↔
      inputs ≠ [] ∧ (∃ entry, entryFrom 0 false none inputs = .ok entry) ∧
        ∃ globals, merge inputs = .ok globals ∧
          ∃ layouts placed, layOutAll inputs = .ok (layouts, placed) ∧
            ∃ out, relocateInputs (sceneOf inputs globals layouts) 0 inputs
              (PerSegment.ofFn fun s => (layouts.get s).image) placed = .ok out := by
  constructor
  · rintro ⟨⟨exe, log⟩, h⟩
    obtain ⟨globals, layouts, placed, images, patched, index, owner, hmerge, hlaid, hpatched, hentry,
      howner, -⟩ := combine_steps h
    refine ⟨?_, ⟨index, hentry⟩, globals, hmerge, layouts, placed, hlaid, _, hpatched⟩
    rintro rfl
    cases howner
  · rintro ⟨hempty, ⟨entry, hentry⟩, globals, hmerge, layouts, placed, hlaid, images, hpatched⟩
    obtain ⟨owner, howner⟩ : ∃ owner, inputs[entry]? = some owner := by
      rcases entryFrom_eq_ok hentry with ⟨hnone, -⟩ | ⟨-, n, owner, rfl, howner, -⟩
      · cases hnone
      · exact ⟨owner, by rwa [Nat.zero_add]⟩
    rw [combine, if_neg (by simpa using hempty), hmerge, hentry]
    simp only [hlaid, hpatched, howner, bind, Except.bind]
    exact ⟨_, rfl⟩

/-- What is combined is an executable, with neither symbols nor relocations. -/
theorem combine_executable {inputs : List Input} {exe : ObjectFile} {log : List Event}
    (h : combine inputs = .ok (exe, log)) :
    exe.kind = .executable ∧ exe.relocations = [] ∧ exe.symbols = [] := by
  obtain ⟨-, -, -, -, -, -, -, -, -, -, -, -, rfl⟩ := combine_steps h
  exact ⟨rfl, rfl, rfl⟩

/-- Linking gives an executable exactly if the objects can be linked and no image goes out of bounds, as far
    as no relocation stands so near to the end of the address space that its own end wraps. Objects that can
    be linked and take an image out of bounds are not found out before linking leaves the image: the end of
    a section is looked at, which is small if the addresses before it have come to their end and gone on at
    zero. -/
theorem link_isOk_iff (inputs : List Input)
    (hsize : ∀ input ∈ inputs, ∀ s, (input.bytes s).size ≤ Bytes.lengthMax)
    (hposition : ∀ input ∈ inputs, ∀ r ∈ input.file.relocations, r.position.toNat ≤ 2 ^ 64 - 17) :
    ((∃ exe, (link ⟨inputs⟩).1 = .ok exe ∧ exe.kind = .executable) ↔ Linkable inputs ∧ InBounds inputs) ∧
      (Linkable inputs → ¬InBounds inputs → (link ⟨inputs⟩).1 = .error .outOfBounds) := by
  have hsize64 : ∀ input ∈ inputs, ∀ s, (input.bytes s).size < 2 ^ 64 :=
    fun input hinput s => Nat.lt_of_le_of_lt (hsize input hinput s) (by decide)
  have hlink : (∃ exe, (link ⟨inputs⟩).1 = .ok exe ∧ exe.kind = .executable) ↔
      ∃ out, combine inputs = .ok out := by
    constructor
    · rintro ⟨exe, hexe, -⟩
      obtain ⟨log, hcombine⟩ := combine_of_link hexe
      exact ⟨_, hcombine⟩
    · rintro ⟨⟨exe, log⟩, hcombine⟩
      exact ⟨exe, by rw [link, hcombine], (combine_executable hcombine).1⟩
  have hentry : (∃ entry, entryFrom 0 false none inputs = .ok entry) ↔
      inputs.countP (fun input => input.file.entry ≠ 0) = 1 ∧
        inputs.countP (fun input => input.file.kernelStart) ≤ 1 := by
    rw [entryFrom_isOk_iff]
    simp
  constructor
  · rw [hlink, combine_isOk_iff, hentry]
    constructor
    · rintro ⟨hempty, ⟨hone, hkernel⟩, globals, hmerge, layouts, placed, hlaid, hpatched⟩
      have hplaced := (layOutAll_isOk_iff hsize64).1 ⟨_, hlaid⟩
      exact ⟨{
        nonempty := hempty
        distinct := (merge_eq_ok_iff.1 hmerge).2
        entry := hone
        kernelStart := hkernel
        room := fun s index input hinput => (hplaced s index input hinput).1
        resolves := (relocateInputs_isOk_iff hsize64 hposition hmerge hlaid).1 hpatched },
        fun s index input hinput => (hplaced s index input hinput).2⟩
    · rintro ⟨h, hbounds⟩
      have hmerge : merge inputs = .ok (globalsFrom 0 inputs).reverse := merge_eq_ok_iff.2 ⟨rfl, h.distinct⟩
      obtain ⟨⟨layouts, placed⟩, hlaid⟩ := (layOutAll_isOk_iff hsize64).2
        fun s index input hinput => ⟨h.room s index input hinput, hbounds s index input hinput⟩
      exact ⟨h.nonempty, ⟨h.entry, h.kernelStart⟩, _, hmerge, layouts, placed, hlaid,
        (relocateInputs_isOk_iff hsize64 hposition hmerge hlaid).2 h.resolves⟩
  · intro h hlong
    have hmerge : merge inputs = .ok (globalsFrom 0 inputs).reverse := merge_eq_ok_iff.2 ⟨rfl, h.distinct⟩
    obtain ⟨entry, hfound⟩ := hentry.2 ⟨h.entry, h.kernelStart⟩
    rcases layOutAll_of_room hsize64 h.room with hlaid | ⟨log, hlaid⟩
    · have hplaced := (layOutAll_isOk_iff hsize64).1 hlaid
      exact absurd (fun s index input hinput => (hplaced s index input hinput).2) hlong
    · have hempty : inputs.isEmpty = false := by simpa using h.nonempty
      simp only [link, combine, hempty, Bool.false_eq_true, if_false, hmerge, hfound, hlaid, bind,
        Except.bind]

/-- A branch at the start of an object to a label of the object at a position. -/
def branchOver (position : UInt64) : List Input :=
  [⟨[ascii 'a'], { ObjectFile.empty .relocatable with
      entry := Segment.textBase
      sections := { (ObjectFile.empty .relocatable).sections with
        text := { addr := Segment.textBase, data := Bytes.ofList [0x20, 0, 0, 0] } }
      relocations := [⟨0, [ascii 't'], ⟨0⟩, .internal⟩]
      symbols := [⟨[ascii 't'], ⟨1⟩, .internal, position⟩] }⟩]

/-- The farthest label that a branch reaches, and the next one. -/
theorem link_isOk_iff_branchOver :
    (Linkable (branchOver 65536) ∧ InBounds (branchOver 65536)) ∧ ¬Linkable (branchOver 65540) := by
  have hsize (position : UInt64) : ∀ input ∈ branchOver position,
      ∀ s, (input.bytes s).size ≤ Bytes.lengthMax := by
    intro input hinput s
    rw [List.mem_singleton.1 hinput]
    cases s <;> exact of_decide_eq_true rfl
  have hposition (position : UInt64) : ∀ input ∈ branchOver position,
      ∀ r ∈ input.file.relocations, r.position.toNat ≤ 2 ^ 64 - 17 := by
    intro input hinput r hr
    rw [List.mem_singleton.1 hinput] at hr
    rw [List.mem_singleton.1 hr]
    decide
  have hnear : (link ⟨branchOver 65536⟩).1.toOption.map ObjectFile.kind = some .executable := by
    decide +kernel
  have hfar : (link ⟨branchOver 65540⟩).1 = .error (.relocation [ascii 'a'] [ascii 't'] .branchRange) := by
    decide +kernel
  constructor
  · refine (link_isOk_iff _ (hsize 65536) (hposition 65536)).1.1 ?_
    cases hlink : (link ⟨branchOver 65536⟩).1 with
    | error e =>
        rw [hlink] at hnear
        cases hnear
    | ok exe =>
        rw [hlink] at hnear
        exact ⟨exe, rfl, Option.some.inj hnear⟩
  · intro hlinkable
    obtain ⟨hiff, hleaves⟩ := link_isOk_iff _ (hsize 65540) (hposition 65540)
    by_cases hbounds : InBounds (branchOver 65540)
    · obtain ⟨exe, hlink, -⟩ := hiff.2 ⟨hlinkable, hbounds⟩
      cases hfar.symm.trans hlink
    · cases hfar.symm.trans (hleaves hlinkable hbounds)

/-- Kernel code that fills the last bytes of the address space, and behind it kernel code that starts at
    address zero and declares as much memory as there is. -/
def behindTheEnd : List Input :=
  [⟨[ascii 'a'], { ObjectFile.empty .relocatable with
      entry := Segment.textBase
      kernelStart := true
      sections := { (ObjectFile.empty .relocatable).sections with
        ktext := { addr := 0 - 16, data := Bytes.zeros 13 } } }⟩,
    ⟨[ascii 'b'], { ObjectFile.empty .relocatable with
      sections := { (ObjectFile.empty .relocatable).sections with
        ktext := { addr := Segment.ktextBase, data := ByteArray.empty, memSize := 0 - 1 } } }⟩]

theorem behindTheEnd_linkable : Linkable behindTheEnd where
  nonempty := by simp [behindTheEnd]
  distinct := by decide
  entry := by decide
  kernelStart := by decide
  room := by
    intro s index input hinput
    rcases index with _ | _ | index
    · cases hinput
      cases s <;> decide +kernel
    · cases hinput
      cases s <;> decide +kernel
    · cases hinput
  resolves := by
    intro index input hinput r hr
    rcases index with _ | _ | index
    · cases hinput
      cases hr
    · cases hinput
      cases hr
    · cases hinput

/-- Not all objects that can be linked are: linking may leave the image that it builds. -/
theorem link_not_always_executable :
    ¬∀ inputs : List Input, (∀ input ∈ inputs, ∀ s, (input.bytes s).size ≤ Bytes.lengthMax) →
      (∀ input ∈ inputs, ∀ r ∈ input.file.relocations, r.position.toNat ≤ 2 ^ 64 - 17) →
      ((∃ exe, (link ⟨inputs⟩).1 = .ok exe ∧ exe.kind = .executable) ↔ Linkable inputs) := by
  intro h
  have hleaves : (link ⟨behindTheEnd⟩).1 = .error .outOfBounds := by decide +kernel
  have hmem : ∀ input ∈ behindTheEnd,
      (∀ s, (input.bytes s).size ≤ Bytes.lengthMax) ∧ input.file.relocations = [] := by
    intro input hinput
    simp only [behindTheEnd, List.mem_cons, List.not_mem_nil, or_false] at hinput
    rcases hinput with rfl | rfl <;> exact ⟨fun s => by cases s <;> decide +kernel, rfl⟩
  obtain ⟨exe, hlink, -⟩ := (h behindTheEnd (fun input hinput => (hmem input hinput).1)
    fun input hinput r hr => by simp [(hmem input hinput).2] at hr).2 behindTheEnd_linkable
  cases hleaves.symm.trans hlink

end Linker

end VectorRisc
