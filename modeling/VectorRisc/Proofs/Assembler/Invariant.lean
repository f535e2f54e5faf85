/-
Module: VectorRisc.Proofs.Assembler.Invariant
Layer: Proofs
Purpose: The object under construction is well formed after every move, as long as no section has more
  bytes than a length can count, and so is the object at the end of a source.
Imports: Mathlib.Tactic, VectorRisc.Proofs.Assembler.Moves, VectorRisc.Proofs.Object.WellFormed
Trusted boundary: none
Main exports: Assembler.Sound, Assembler.Sound.move, Assembler.Sound.moves, Assembler.Finished,
  Assembler.finished_of_finish, Assembler.assemble_wellFormed
Open obligations: none
-/
import Mathlib.Tactic
import VectorRisc.Proofs.Assembler.Moves
import VectorRisc.Proofs.Object.WellFormed

namespace VectorRisc

@[simp] theorem SymbolKind.segment_ofSegment (s : Segment) : (SymbolKind.ofSegment s).segment = s := by
  cases s <;> rfl

namespace Assembler

/-- The object under construction is well formed. Relocations come in the order of their positions. -/
structure Sound (s : State) : Prop where
  table : s.table = Table.standard
  code : ∀ seg : Segment, seg.isCode = true → 4 ∣ (s.sections.get seg).size
  distinct : (s.symbols.toList.map Symbol.label ++ s.pending.map Mark.name).Nodup
  labels : ∀ label ∈ s.symbols.toList.map Symbol.label ++ s.pending.map Mark.name,
    Text.isLabel label = true
  inside : ∀ sym ∈ s.symbols.toList, sym.position.toNat ≤ (s.sections.get sym.kind.segment).size
  aligned : ∀ sym ∈ s.symbols.toList, sym.kind.segment.isCode = true → 4 ∣ sym.position.toNat
  placed : ∀ r ∈ s.requests.toList, ∃ seg patch, r.relocation.Placed s.sections.get seg patch
  scope : ∀ r ∈ s.requests.toList, r.relocation.scope = .internal ∨ r.relocation.scope = .global
  ordered : s.requests.toList.Pairwise fun a b =>
    a.relocation.kind.segment = b.relocation.kind.segment →
      a.relocation.stop ≤ b.relocation.position.toNat

/-- No section has more bytes than can be allocated. -/
def Short (s : State) : Prop := ∀ seg, (s.sections.get seg).size ≤ Bytes.lengthMax

/-! ### Sections grow -/

theorem get_append (s : State) (bytes : ByteArray) (seg : Segment) :
    (s.append bytes).sections.get seg =
      s.sections.get seg ++ if seg = s.segment then bytes else ByteArray.empty := by
  rw [State.append, PerSegment.get_modify]
  split
  · rfl
  · exact ByteArray.append_empty.symm

/-- Sections only grow. -/
theorem Move.grows {s t : State} (h : Move s t) (seg : Segment) :
    ∃ more, t.sections.get seg = s.sections.get seg ++ more := by
  cases h with
  | aside hsame => exact ⟨ByteArray.empty, by rw [hsame.sections, ByteArray.append_empty]⟩
  | waits mark => exact ⟨ByteArray.empty, ByteArray.append_empty.symm⟩
  | binds => exact ⟨ByteArray.empty, ByteArray.append_empty.symm⟩
  | writes bytes => exact ⟨_, get_append s bytes seg⟩
  | places line c => exact ⟨_, get_append s.bindLabels _ seg⟩

theorem Move.short {s t : State} (h : Move s t) (ht : Short t) : Short s := by
  intro seg
  obtain ⟨more, hmore⟩ := h.grows seg
  have hsize := ht seg
  rw [hmore, ByteArray.size_append] at hsize
  omega

namespace Sound

variable {s t : State}

/-! ### One move -/

theorem aside (h : Sound s) (hsame : SameObject s t) : Sound t := by
  obtain ⟨htable, -, hsections, hsymbols, hrequests, hpending⟩ := hsame
  refine ⟨?_, ?_, ?_, ?_, ?_, ?_, ?_, ?_, ?_⟩
  · rw [htable]
    exact h.table
  · rw [hsections]
    exact h.code
  · rw [hsymbols, hpending]
    exact h.distinct
  · rw [hsymbols, hpending]
    exact h.labels
  · rw [hsymbols, hsections]
    exact h.inside
  · rw [hsymbols]
    exact h.aligned
  · rw [hrequests, hsections]
    exact h.placed
  · rw [hrequests]
    exact h.scope
  · rw [hrequests]
    exact h.ordered

theorem waits (h : Sound s) {mark : Mark} (hlabel : mark.name.isLabel = true)
    (hsymbols : s.isDefined mark.name = false)
    (hpending : (s.pending.any fun m => m.name = mark.name) = false) :
    Sound { s with pending := s.pending ++ [mark] } := by
  have hnew : mark.name ∉ s.symbols.toList.map Symbol.label ++ s.pending.map Mark.name := by
    rw [State.isDefined, ← Array.any_toList] at hsymbols
    intro hmem
    rcases List.mem_append.1 hmem with hbound | hwaiting
    · obtain ⟨sym, hsym, hname⟩ := List.mem_map.1 hbound
      simpa [hname] using List.any_eq_false.1 hsymbols sym hsym
    · obtain ⟨other, hother, hname⟩ := List.mem_map.1 hwaiting
      simpa [hname] using List.any_eq_false.1 hpending other hother
  refine ⟨h.table, h.code, ?_, ?_, h.inside, h.aligned, h.placed, h.scope, h.ordered⟩
  · rw [List.map_append, ← List.append_assoc]
    refine List.nodup_append.2 ⟨h.distinct, List.nodup_singleton _, ?_⟩
    intro label hold other hother heq
    rw [List.map_singleton, List.mem_singleton] at hother
    rw [heq, hother] at hold
    exact hnew hold
  · intro label hmem
    rw [List.map_append, ← List.append_assoc, List.mem_append] at hmem
    rcases hmem with hold | hmark
    · exact h.labels label hold
    · rw [List.mem_singleton.1 hmark]
      exact hlabel

/-- Labels bind to the end of a section, which is a place of it. -/
theorem binds (h : Sound s) (hshort : Short s) : Sound s.bindLabels := by
  have hfilled : (UInt64.ofNat s.filled).toNat = (s.sections.get s.segment).size := by
    exact UInt64.toNat_ofNat_of_lt' (lt_of_le_of_lt (hshort s.segment) (by decide))
  have hlabels : s.bindLabels.symbols.toList.map Symbol.label ++ s.bindLabels.pending.map Mark.name =
      s.symbols.toList.map Symbol.label ++ s.pending.map Mark.name := by
    simp only [State.bindLabels, Array.toList_append, List.map_append, List.map_map, List.map_nil,
      List.append_nil]
    rfl
  have hmem : ∀ sym ∈ s.bindLabels.symbols.toList, sym ∈ s.symbols.toList ∨
      ∃ mark, sym = State.symbolOf s.segment (UInt64.ofNat s.filled) mark := by
    intro sym hsym
    simp only [State.bindLabels, Array.toList_append, List.mem_append, List.mem_map] at hsym
    rcases hsym with hold | ⟨mark, -, rfl⟩
    · exact .inl hold
    · exact .inr ⟨mark, rfl⟩
  refine ⟨h.table, h.code, ?_, ?_, ?_, ?_, h.placed, h.scope, h.ordered⟩
  · rw [hlabels]
    exact h.distinct
  · rw [hlabels]
    exact h.labels
  · intro sym hsym
    rcases hmem sym hsym with hold | ⟨mark, rfl⟩
    · exact h.inside sym hold
    · simp only [State.symbolOf, SymbolKind.segment_ofSegment, hfilled]
      exact le_refl _
  · intro sym hsym hcode
    rcases hmem sym hsym with hold | ⟨mark, rfl⟩
    · exact h.aligned sym hold hcode
    · simp only [State.symbolOf, SymbolKind.segment_ofSegment] at hcode
      simp only [State.symbolOf, hfilled]
      exact h.code s.segment hcode

/-- Bytes that are written, in code whole words, leave what is there in its place. -/
theorem append (h : Sound s) {bytes : ByteArray} (hwords : s.segment.isCode = true → 4 ∣ bytes.size) :
    Sound (s.append bytes) := by
  refine ⟨h.table, ?_, h.distinct, h.labels, ?_, h.aligned, ?_, h.scope, h.ordered⟩
  · intro seg hcode
    rw [get_append, ByteArray.size_append]
    refine Nat.dvd_add (h.code seg hcode) ?_
    split
    · rename_i hseg
      exact hwords (hseg ▸ hcode)
    · exact Nat.dvd_zero 4
  · intro sym hsym
    rw [get_append, ByteArray.size_append]
    exact le_add_right (h.inside sym hsym)
  · intro r hr
    obtain ⟨seg, patch, hplaced⟩ := h.placed r hr
    exact ⟨seg, patch, hplaced.grow (get_append s bytes seg)⟩

end Sound

/-! ### Instructions -/

/-- An instruction line that is understood: it stands in code, on a word, and is read, expanded and
    encoded. -/
theorem codedLine_eq_ok {s : State} {line : Text} {c : State.Coded} (h : s.codedLine line = .ok c) :
    s.segment.isCode = true ∧ 4 ∣ s.filled ∧
      Instruction.parse s.table Instruction.literal line = .ok c.written ∧
      realInstructions s.table c.written = .ok c.parts ∧ encodeAll c.parts = .ok c.codes := by
  rw [State.codedLine] at h
  split at h
  · cases h
  · rename_i hcode
    split at h
    · cases h
    · rename_i haligned
      split at h
      · cases h
      · rename_i x hparse
        split at h
        · cases h
        · rename_i parts hparts
          obtain ⟨codes, hcodes, rfl⟩ := map_eq_ok.1 h
          exact ⟨by simpa using hcode, Nat.dvd_of_mod_eq_zero (by simpa using haligned), hparse, hparts,
            hcodes⟩

/-- The words of a line with a label are those its patch is meant for. -/
theorem hosts_of_codedLine {s : State} {line : Text} {c : State.Coded}
    (htable : s.table = Table.standard) (h : s.codedLine line = .ok c) (hlabel : c.written.label ≠ []) :
    (patchOf c.written.mnemonic.format).Hosts c.codes := by
  obtain ⟨-, -, hparse, hparts, hcodes⟩ := codedLine_eq_ok h
  rw [htable] at hparse hparts
  obtain ⟨hmem, htarget⟩ := Instruction.parse_eq_ok hparse
  exact hosts_of_encodeAll hmem (htarget.resolve_left hlabel) hlabel hparts hcodes

theorem length_wordBytes (codes : List Word) : (wordBytes codes).length = 4 * codes.length := by
  induction codes with
  | nil => rfl
  | cons w codes ih =>
      rw [wordBytes, List.flatMap_cons, List.length_append, Bytes.length_ofNat, List.length_cons]
      rw [wordBytes] at ih
      omega

/-- The words that are written are found at the end of what was there. -/
theorem wordsAt_append_wordBytes (image : ByteArray) (codes : List Word) :
    Bytes.wordsAt (image ++ Bytes.ofList (wordBytes codes)) image.size codes.length = codes := by
  have hwritten := Bytes.wordsAt_written (Bytes.toList image) codes []
  rw [List.append_nil, Bytes.ofList_append, Bytes.ofList_toList, Bytes.length_toList] at hwritten
  exact hwritten

theorem getElem?_wordBytes (image : ByteArray) {codes : List Word} {i : Nat} (hi : i < codes.length) :
    codes[i]? = some (Bytes.wordAt (image ++ Bytes.ofList (wordBytes codes)) (image.size + 4 * i)) := by
  obtain ⟨code, hfound⟩ : ∃ code, codes[i]? = some code := ⟨_, List.getElem?_eq_getElem hi⟩
  have hword := hfound
  rw [← wordsAt_append_wordBytes image codes] at hword
  rw [hfound, (Bytes.getElem?_wordsAt hword).2]

namespace Sound

variable {s t : State}

/-- A request at the end of what was there stands on the words that follow. -/
theorem placed_request (h : Sound s) (hshort : Short s) {line : Text} {c : State.Coded}
    (hc : s.codedLine line = .ok c) (hlabel : c.written.label ≠ []) {u : State}
    (hsegment : u.segment = s.segment) :
    (u.request c.written (UInt64.ofNat s.filled)).relocation.Placed
      (s.emit (Bytes.ofList (wordBytes c.codes))).sections.get s.segment
      (patchOf c.written.mnemonic.format) := by
  obtain ⟨hcode, haligned, -⟩ := codedLine_eq_ok hc
  have hhosts := hosts_of_codedLine h.table hc hlabel
  have hposition : (UInt64.ofNat s.filled).toNat = (s.sections.get s.segment).size :=
    UInt64.toNat_ofNat_of_lt' (lt_of_le_of_lt (hshort s.segment) (by decide))
  have hcount := length_of_hosts hhosts
  have himage : (s.emit (Bytes.ofList (wordBytes c.codes))).sections.get s.segment =
      s.sections.get s.segment ++ Bytes.ofList (wordBytes c.codes) := by
    have happend := get_append s.bindLabels (Bytes.ofList (wordBytes c.codes)) s.segment
    have hsame : s.bindLabels.segment = s.segment := rfl
    rwa [hsame, if_pos rfl] at happend
  refine ⟨hcode, by rw [State.request, hsegment], ?_, ?_, ?_⟩
  · rw [State.request, hposition]
    exact haligned
  · rw [himage, ByteArray.size_append, Bytes.size_ofList, length_wordBytes, hcount, State.request,
      hposition]
  · rw [himage, State.request, hposition, ← hcount, wordsAt_append_wordBytes]
    exact hhosts

/-- An instruction that is placed, with the relocation it asks for. -/
theorem places (h : Sound s) (hshort : Short s) {line : Text} {c : State.Coded}
    (hc : s.codedLine line = .ok c) : Sound (s.place line c) := by
  have hwritten : Sound (s.emit (Bytes.ofList (wordBytes c.codes))) := by
    refine (h.binds hshort).append fun _ => ?_
    rw [Bytes.size_ofList, length_wordBytes]
    exact Nat.dvd_mul_right 4 _
  by_cases hlabel : c.written.label = []
  · have hrequests : (s.place line c).requests = (s.emit (Bytes.ofList (wordBytes c.codes))).requests := by
      simp [State.place, hlabel]
    refine ⟨hwritten.table, hwritten.code, hwritten.distinct, hwritten.labels, hwritten.inside,
      hwritten.aligned, ?_, ?_, ?_⟩
    · rw [hrequests]
      exact hwritten.placed
    · rw [hrequests]
      exact hwritten.scope
    · rw [hrequests]
      exact hwritten.ordered
  · have hrequests : (s.place line c).requests.toList = s.requests.toList ++
        [(s.emit (Bytes.ofList (wordBytes c.codes))).request c.written (UInt64.ofNat s.filled)] := by
      simp only [State.place, List.isEmpty_iff, hlabel, if_false, Array.toList_push]
      rfl
    have hplaced := h.placed_request hshort hc hlabel
      (u := s.emit (Bytes.ofList (wordBytes c.codes))) rfl
    refine ⟨hwritten.table, hwritten.code, hwritten.distinct, hwritten.labels, hwritten.inside,
      hwritten.aligned, ?_, ?_, ?_⟩
    · intro r hr
      rw [hrequests, List.mem_append, List.mem_singleton] at hr
      rcases hr with hold | rfl
      · exact hwritten.placed r hold
      · exact ⟨s.segment, _, hplaced⟩
    · intro r hr
      rw [hrequests, List.mem_append, List.mem_singleton] at hr
      rcases hr with hold | rfl
      · exact hwritten.scope r hold
      · simp only [State.request]
        split
        · exact .inr rfl
        · exact .inl rfl
    · rw [hrequests]
      refine List.pairwise_append.2 ⟨h.ordered, List.pairwise_singleton _ _, ?_⟩
      intro old hold new hnew hsegment
      rw [List.mem_singleton.1 hnew] at hsegment ⊢
      -- an earlier relocation of the segment ends before the words that are appended to it
      obtain ⟨seg, patch, hbefore⟩ := h.placed old hold
      rw [hbefore.segment_eq, hplaced.segment_eq] at hsegment
      subst hsegment
      rw [hbefore.stop_eq]
      refine le_trans hbefore.inside (le_of_eq ?_)
      exact (UInt64.toNat_ofNat_of_lt' (lt_of_le_of_lt (hshort s.segment) (by decide))).symm

/-! ### Many moves -/

/-- A move keeps the object well formed, unless a section has become too long. -/
theorem move (h : Sound s) (hmove : Move s t) (ht : Short t) : Sound t := by
  have hs := hmove.short ht
  cases hmove with
  | aside hsame => exact h.aside hsame
  | waits mark hlabel hsymbols hpending => exact h.waits hlabel hsymbols hpending
  | binds => exact h.binds hs
  | writes bytes hdata =>
      refine h.append fun hcode => ?_
      rw [hdata] at hcode
      cases hcode
  | places line c hc => exact h.places hs hc

/-- Moves keep the object well formed, unless a section has become too long. -/
theorem moves (h : Sound s) (hmoves : Moves s t) (ht : Short t) : Sound t := by
  induction hmoves with
  | refl => exact h
  | tail _ hmove ih => exact (ih (hmove.short ht)).move hmove ht

end Sound

/-- The object of an assembly that has not started is well formed. -/
theorem start_sound (host : Host) (predefined : Equates) (labels : List Text) :
    Sound { ({ host := host, predefined := predefined } : Assembler).start with labels := labels } := by
  refine ⟨rfl, ?_, ?_, ?_, ?_, ?_, ?_, ?_, ?_⟩
  · intro seg _
    rw [start, PerSegment.get_ofFn]
    exact Nat.dvd_zero 4
  all_goals simp [start]

/-! ### The end of a source -/

/-- A symbol gets its scope at the end, and nothing else. -/
theorem mem_scopedSymbols {s : State} {sym : Symbol} (h : sym ∈ s.scopedSymbols) :
    ∃ old ∈ s.symbols.toList, sym.label = old.label ∧ sym.kind = old.kind ∧
      sym.position = old.position := by
  obtain ⟨old, hold, rfl⟩ := List.mem_map.1 h
  refine ⟨old, hold, ?_⟩
  split <;> exact ⟨rfl, rfl, rfl⟩

theorem map_label_scopedSymbols (s : State) :
    s.scopedSymbols.map Symbol.label = s.symbols.toList.map Symbol.label := by
  rw [State.scopedSymbols, List.map_map]
  refine List.map_congr_left fun sym _ => ?_
  simp only [Function.comp_apply]
  split <;> rfl

/-- No label is missing, so that a relocation with a label of the object finds it. -/
theorem exists_of_missingLabel? {s : State} (h : s.missingLabel? = none) {r : Request}
    (hr : r ∈ s.requests.toList) (hscope : r.relocation.scope = .internal) :
    ∃ sym ∈ s.scopedSymbols, sym.label = r.relocation.label := by
  have hdefined := List.findSome?_eq_none_iff.1 h r hr
  simp only [hscope, ne_eq, not_true_eq_false, decide_false, Bool.false_or, ite_eq_left_iff,
    Bool.not_eq_true, reduceCtorEq, imp_false, Bool.not_eq_false] at hdefined
  rw [State.isDefined, ← Array.any_toList, List.any_eq_true] at hdefined
  obtain ⟨sym, hsym, hlabel⟩ := hdefined
  have hmem : sym.label ∈ s.scopedSymbols.map Symbol.label := by
    rw [map_label_scopedSymbols]
    exact List.mem_map_of_mem hsym
  obtain ⟨found, hfound, hsame⟩ := List.mem_map.1 hmem
  exact ⟨found, hfound, hsame.trans (of_decide_eq_true hlabel)⟩

/-- The object that a state ends as: what was assembled, with the entry at the label that is declared as
    one. -/
structure Finished (s : State) (file : ObjectFile) : Prop where
  kind : file.kind = .relocatable
  sections : file.sections = PerSegment.ofFn fun seg => { addr := seg.base, data := s.sections.get seg }
  relocations : file.relocations = s.requests.toList.map Request.relocation
  symbols : file.symbols = s.scopedSymbols
  defined : s.missingLabel? = none
  entry : (s.entry = none ∧ file.entry = 0) ∨ ∃ label reference sym, s.entry = some (label, reference) ∧
    file.symbol? label = some sym ∧ file.entry = file.addressOf sym

/-- The end of a source binds the labels that still wait. -/
theorem finish_state (s : State) : s.finish.1 = s ∨ s.finish.1 = s.bindLabels := by
  simp only [State.finish]
  split
  · exact .inr rfl
  · exact .inl rfl

/-- An assembly that ends with an object ends as that. -/
theorem finished_of_finish {s : State} {file : ObjectFile} (h : s.finish.2 = .ok file) :
    Finished s.finish.1 file := by
  simp only [State.finish] at h ⊢
  generalize (if s.started then s.bindLabels else s) = u at h ⊢
  split at h
  · cases h
  · rename_i hmissing
    have hdefined : u.missingLabel? = none := (Option.or_eq_none_iff.1 hmissing).2
    split at h
    · rename_i hnone
      cases h
      exact ⟨rfl, rfl, rfl, rfl, hdefined, .inl ⟨hnone, rfl⟩⟩
    · rename_i label reference hentry
      split at h
      · cases h
      · rename_i sym hsym
        cases h
        exact ⟨rfl, rfl, rfl, rfl, hdefined, .inr ⟨label, reference, sym, hentry, hsym, rfl⟩⟩

/-- The object of a well-formed state. -/
theorem Sound.wellFormed {s : State} (h : Sound s) (hshort : Short s) {file : ObjectFile}
    (hfile : Finished s file) : file.WellFormed := by
  obtain ⟨hkind, hsections, hrelocations, hsymbols, hlabels, hdeclared⟩ := hfile
  have hentry : file.entry = 0 ∨ ∃ sym ∈ file.symbols, file.entry = file.addressOf sym := by
    rcases hdeclared with ⟨-, hzero⟩ | ⟨label, reference, sym, -, hsym, haddress⟩
    · exact .inl hzero
    · exact .inr ⟨sym, List.mem_of_find?_eq_some hsym, haddress⟩
  have hget (seg : Segment) : file.sections.get seg = { addr := seg.base, data := s.sections.get seg } := by
    rw [hsections, PerSegment.get_ofFn]
  refine ⟨hkind, ?_, ?_, ?_, ?_, ?_, ?_, ?_, ?_, ?_, ?_, ?_, ?_, hentry⟩
  · intro seg
    rw [hget]
  · intro seg
    rw [hget]
  · intro seg
    rw [hget]
    exact hshort seg
  · intro seg hcode
    rw [hget]
    exact h.code seg hcode
  · rw [hsymbols, map_label_scopedSymbols]
    exact (List.nodup_append.1 h.distinct).1
  · intro sym hsym
    rw [hsymbols] at hsym
    refine h.labels _ (List.mem_append_left _ ?_)
    rw [← map_label_scopedSymbols]
    exact List.mem_map_of_mem hsym
  · intro sym hsym
    rw [hsymbols] at hsym
    obtain ⟨old, hold, -, hkind, hposition⟩ := mem_scopedSymbols hsym
    rw [hget, hkind, hposition]
    exact h.inside old hold
  · intro sym hsym hcode
    rw [hsymbols] at hsym
    obtain ⟨old, hold, -, hkind, hposition⟩ := mem_scopedSymbols hsym
    rw [hkind] at hcode
    rw [hposition]
    exact h.aligned old hold hcode
  · intro r hr
    rw [hrelocations] at hr
    obtain ⟨request, hrequest, rfl⟩ := List.mem_map.1 hr
    obtain ⟨seg, patch, hplaced⟩ := h.placed request hrequest
    refine ⟨seg, patch, ?_⟩
    simp only [hget]
    exact hplaced
  · rw [hrelocations, List.pairwise_map]
    exact h.ordered.imp fun hbefore hsegment => .inl (hbefore hsegment)
  · intro r hr hscope
    rw [hrelocations] at hr
    obtain ⟨request, hrequest, rfl⟩ := List.mem_map.1 hr
    rw [hsymbols]
    exact exists_of_missingLabel? hlabels hrequest hscope
  · intro r hr
    rw [hrelocations] at hr
    obtain ⟨request, hrequest, rfl⟩ := List.mem_map.1 hr
    exact h.scope request hrequest

/-- An object that an assembly ends with is well formed. -/
theorem finish_wellFormed {s : State} (h : Sound s) (hshort : Short s) {file : ObjectFile}
    (hfinish : s.finish.2 = .ok file) : file.WellFormed := by
  have hend : Sound s.finish.1 ∧ Short s.finish.1 := by
    rcases finish_state s with hsame | hbound
    · rw [hsame]
      exact ⟨h, hshort⟩
    · rw [hbound]
      exact ⟨h.binds hshort, hshort⟩
  exact hend.1.wellFormed hend.2 (finished_of_finish hfinish)

theorem oversized_eq_false_iff {s : State} : s.oversized = false ↔ Short s := by
  simp only [State.oversized, PerSegment.toList, List.any_eq_false, decide_eq_true_eq, Nat.not_lt, Short]
  constructor
  · intro h seg
    exact h (s.sections.get seg) (by cases seg <;> simp [PerSegment.get])
  · intro h bytes hbytes
    simp only [List.mem_cons, List.not_mem_nil, or_false] at hbytes
    rcases hbytes with rfl | rfl | rfl | rfl
    · exact h .text
    · exact h .data
    · exact h .ktext
    · exact h .kdata

/-- An assembly that ends with an object: the lines are assembled, no section is too long, and the object is
    finished. -/
theorem assemble_eq_ok {a : Assembler} {source : Text} {file : ObjectFile}
    (h : (assemble a source).2 = .ok file) :
    ∃ s, assembleLines source.lines { a.start with labels := labelsOf source.lines } = .ok s ∧
      Short s ∧ s.finish.2 = .ok file ∧ (assemble a source).1 = s.finish.1 := by
  generalize hrun : assemble a source = out at h ⊢
  simp only [assemble] at hrun
  split at hrun
  · subst hrun
    cases h
  · split at hrun
    · subst hrun
      cases h
    · rename_i s hlines
      split at hrun
      · subst hrun
        cases h
      · rename_i hsize
        split at hrun
        · subst hrun
          cases h
        · subst hrun
          refine ⟨s, hlines, oversized_eq_false_iff.1 (by simpa using hsize), ?_, rfl⟩
          cases hfinish : s.finish.2 with
          | error e =>
              rw [hfinish] at h
              cases h
          | ok object =>
              rw [hfinish] at h
              cases h
              rfl

/-- Every object that is assembled is well formed. -/
theorem assemble_wellFormed {host : Host} {predefined : Equates} {source : Text} {file : ObjectFile}
    (h : (assemble { host := host, predefined := predefined } source).2 = .ok file) : file.WellFormed := by
  obtain ⟨s, hlines, hshort, hfinish, -⟩ := assemble_eq_ok h
  have hsound := (start_sound host predefined _).moves (assembleLines_moves hlines) hshort
  exact finish_wellFormed hsound hshort hfinish

end Assembler

end VectorRisc
