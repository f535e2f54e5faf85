/-
Module: VectorRisc.Proofs.Assembler.Tiling
Layer: Proofs
Purpose: The listing tiles the code. The statements of a code segment lie in it one after the other, without
  a gap and without a common word; so the codes that are listed are the words of the segment in order, and
  the statement that is found for an offset holds the word there, under the number of the line that wrote it.
Imports: Mathlib.Tactic, VectorRisc.Command.Host, VectorRisc.Proofs.Assembler.Invariant
Trusted boundary: none
Main exports: Assembler.Listing.codeAt?, Assembler.Listing.codesIn, Assembler.Whole, Assembler.Tiled,
  Assembler.Tiled.moves, Assembler.Adds, Assembler.Wrote, Assembler.assemble_tiles
Open obligations: none
-/
import Mathlib.Tactic
import VectorRisc.Command.Host
import VectorRisc.Proofs.Assembler.Invariant

namespace VectorRisc

namespace Assembler

/-! ### Looking up -/

namespace Listing

/-- The code that is listed for an offset of a segment. -/
def codeAt? (listing : Listing) (s : Segment) (offset : UInt64) : Option Word :=
  (listing.lookup? s offset).bind fun (st, index) => st.codes[index]?

/-- A statement has a code for the offsets from its own on, four for each code. -/
theorem placeIn?_eq_some_iff {s : Segment} {offset : UInt64} {st : Statement} {index : Nat} :
    placeIn? s offset st = some index ↔ st.segment = s ∧ st.offset.toNat ≤ offset.toNat ∧
      index = (offset.toNat - st.offset.toNat) / 4 ∧ index < st.codes.length := by
  simp only [placeIn?]
  by_cases houtside : st.segment ≠ s ∨ offset < st.offset
  · rw [if_pos (by simpa using houtside)]
    rw [UInt64.lt_iff_toNat_lt] at houtside
    simp only [reduceCtorEq, false_iff]
    rintro ⟨hsegment, hfrom, -⟩
    rcases houtside with hother | hbefore
    · exact hother hsegment
    · omega
  · rw [if_neg (by simpa using houtside)]
    rw [UInt64.lt_iff_toNat_lt, not_or, not_not, Nat.not_lt] at houtside
    have hindex : ((offset - st.offset) / 4).toNat = (offset.toNat - st.offset.toNat) / 4 := by
      rw [UInt64.toNat_div, UInt64.toNat_sub_of_le _ _ houtside.2]
      rfl
    rw [hindex]
    split
    · rename_i hin
      rw [Option.some.injEq]
      constructor
      · rintro rfl
        exact ⟨houtside.1, houtside.2, rfl, hin⟩
      · rintro ⟨-, -, rfl, -⟩
        rfl
    · rename_i hout
      simp only [reduceCtorEq, false_iff]
      rintro ⟨-, -, rfl, hin⟩
      exact hout hin

/-- A statement that is found is listed and covers the offset. -/
theorem lookup?_eq_some {listing : Listing} {s : Segment} {offset : UInt64} {st : Statement} {index : Nat}
    (h : listing.lookup? s offset = some (st, index)) :
    st ∈ listing.toList ∧ placeIn? s offset st = some index := by
  obtain ⟨other, hother, hplace⟩ := List.exists_of_findSome?_eq_some h
  obtain ⟨_, hindex, hsame⟩ := Option.map_eq_some_iff.1 hplace
  obtain ⟨rfl, rfl⟩ := Prod.mk.inj hsame
  exact ⟨hother, hindex⟩

/-- A statement that is added hides nothing. -/
theorem codeAt?_push {listing : Listing} {s : Segment} {offset : UInt64} {code : Word}
    (h : listing.codeAt? s offset = some code) (st : Statement) :
    codeAt? (listing.push st) s offset = some code := by
  obtain ⟨found, hfound, hcode⟩ := Option.bind_eq_some_iff.1 h
  rw [lookup?] at hfound
  rw [codeAt?, lookup?, Array.toList_push, List.findSome?_append, hfound]
  exact hcode

/-- A statement that is added tells its codes, if no other does. -/
theorem codeAt?_push_self {listing : Listing} {s : Segment} {offset : UInt64} {st : Statement}
    {code : Word} (hsegment : st.segment = s)
    (hbefore : ∀ other ∈ listing.toList, other.segment = s →
      other.offset.toNat + 4 * other.codes.length ≤ offset.toNat)
    (hfrom : st.offset.toNat ≤ offset.toNat)
    (h : st.codes[(offset.toNat - st.offset.toNat) / 4]? = some code) :
    codeAt? (listing.push st) s offset = some code := by
  have hnone : listing.toList.findSome? (fun other =>
      (placeIn? s offset other).map fun index => (other, index)) = none := by
    rw [List.findSome?_eq_none_iff]
    intro other hother
    rw [Option.map_eq_none_iff, Option.eq_none_iff_forall_ne_some]
    intro index hindex
    obtain ⟨hsame, hother', rfl, hin⟩ := placeIn?_eq_some_iff.1 hindex
    have hend := hbefore other hother hsame
    omega
  have hself : placeIn? s offset st = some ((offset.toNat - st.offset.toNat) / 4) :=
    placeIn?_eq_some_iff.2 ⟨hsegment, hfrom, rfl, (List.getElem?_eq_some_iff.1 h).1⟩
  rw [codeAt?, lookup?, Array.toList_push, List.findSome?_append, hnone, Option.none_or,
    List.findSome?_singleton, hself]
  exact h

/-! ### All codes -/

/-- The words of an image with their offsets. -/
def codesIn (image : ByteArray) : List (UInt64 × Word) :=
  (List.range (image.size / 4)).map fun i => (UInt64.ofNat (4 * i), Bytes.wordAt image (4 * i))

theorem codes_push (listing : Listing) (st : Statement) (s : Segment) :
    codes (listing.push st) s = listing.codes s ++ if st.segment = s then codesOf st else [] := by
  rw [codes, codes, Array.toList_push, List.filter_append, List.flatMap_append]
  by_cases hs : st.segment = s
  · simp [hs]
  · simp [hs]

/-- The codes of a statement are the words that it adds to an image. -/
theorem codesIn_append {image : ByteArray} (haligned : 4 ∣ image.size) {st : Statement}
    (hoffset : st.offset = UInt64.ofNat image.size) :
    codesIn (image ++ Bytes.ofList (wordBytes st.codes)) = codesIn image ++ codesOf st := by
  have hsize : (image ++ Bytes.ofList (wordBytes st.codes)).size / 4 =
      image.size / 4 + st.codes.length := by
    rw [ByteArray.size_append, Bytes.size_ofList, length_wordBytes]
    omega
  rw [codesIn, hsize, List.range_add, List.map_append, List.map_map]
  refine congrArg₂ _ (List.map_congr_left fun i hi => ?_) (List.ext_getElem? fun i => ?_)
  · rw [List.mem_range] at hi
    rw [Bytes.wordAt_append_left _ (by omega)]
  · by_cases hi : i < st.codes.length
    · have hplace : 4 * (image.size / 4 + i) = image.size + 4 * i := by omega
      have hspot : UInt64.ofNat (image.size + 4 * i) = st.offset + 4 * UInt64.ofNat i := by
        rw [hoffset, UInt64.ofNat_add, UInt64.ofNat_mul]
        rfl
      have hcode := getElem?_wordBytes image hi
      rw [List.getElem?_eq_getElem hi, Option.some.injEq] at hcode
      simp only [codesOf, List.getElem?_map, List.getElem?_range hi, Option.map_some,
        Function.comp_apply, hplace, hspot, List.zip_eq_zipWith, List.getElem?_zipWith,
        List.getElem?_eq_getElem hi, ← hcode]
    · rw [List.getElem?_eq_none (by simpa using hi), List.getElem?_eq_none (by simpa [codesOf] using hi)]

end Listing

/-! ### One move -/

/-- Code is made of whole words. -/
def Whole (s : State) : Prop := ∀ seg : Segment, seg.isCode = true → 4 ∣ (s.sections.get seg).size

/-- The words of a line are appended to the current segment. -/
theorem place_sections (s : State) (line : Text) (c : State.Coded) (seg : Segment) :
    (s.place line c).sections.get seg = s.sections.get seg ++
      if seg = s.segment then Bytes.ofList (wordBytes c.codes) else ByteArray.empty :=
  get_append s.bindLabels _ seg

/-- A line is listed at the end of what was there. -/
theorem place_listing (s : State) (line : Text) (c : State.Coded) :
    ∃ st : Statement, (s.place line c).listing = s.listing.push st ∧ st.lineNo = s.lineNo ∧
      st.segment = s.segment ∧ st.offset = UInt64.ofNat (s.sections.get s.segment).size ∧
      st.codes = c.codes :=
  ⟨_, rfl, rfl, rfl, rfl, rfl⟩

theorem Whole.move {s t : State} (h : Whole s) (hmove : Move s t) : Whole t := by
  intro seg hcode
  cases hmove with
  | aside hsame =>
      rw [hsame.sections]
      exact h seg hcode
  | waits | binds => exact h seg hcode
  | writes bytes hdata =>
      have hother : seg ≠ s.segment := by
        rintro rfl
        rw [hdata] at hcode
        cases hcode
      rw [get_append, if_neg hother, ByteArray.append_empty]
      exact h seg hcode
  | places line c =>
      rw [place_sections, ByteArray.size_append]
      refine Nat.dvd_add (h seg hcode) ?_
      split
      · rw [Bytes.size_ofList, length_wordBytes]
        exact Nat.dvd_mul_right 4 _
      · exact Nat.dvd_zero 4

theorem Whole.moves {s t : State} (h : Whole s) (hmoves : Moves s t) : Whole t := by
  induction hmoves with
  | refl => exact h
  | tail _ hmove ih => exact ih.move hmove

/-- The statements tile the code: they lie in their sections, all codes are the words in order, and every
    byte of code is listed with the word it belongs to. -/
structure Tiled (s : State) : Prop where
  whole : Whole s
  inside : ∀ st ∈ s.listing.toList,
    st.offset.toNat + 4 * st.codes.length ≤ (s.sections.get st.segment).size
  codes : ∀ seg : Segment, seg.isCode = true → s.listing.codes seg = Listing.codesIn (s.sections.get seg)
  found : ∀ seg : Segment, seg.isCode = true → ∀ k < (s.sections.get seg).size,
    s.listing.codeAt? seg (UInt64.ofNat k) = some (Bytes.wordAt (s.sections.get seg) (k / 4 * 4))

namespace Tiled

variable {s t : State}

/-- Only the sections and the listing count. -/
theorem of_same (h : Tiled s) (hlisting : t.listing = s.listing) (hsections : t.sections = s.sections) :
    Tiled t := by
  obtain ⟨hwhole, hinside, hcodes, hfound⟩ := h
  rw [Whole, ← hsections] at hwhole
  simp only [← hlisting, ← hsections] at hinside hcodes hfound
  exact ⟨hwhole, hinside, hcodes, hfound⟩

/-- Data is not listed. -/
theorem writes (h : Tiled s) {bytes : ByteArray} (hdata : s.segment.isCode = false) :
    Tiled (s.append bytes) := by
  have hkept : ∀ seg : Segment, seg.isCode = true →
      (s.append bytes).sections.get seg = s.sections.get seg := by
    intro seg hcode
    have hother : seg ≠ s.segment := by
      rintro rfl
      rw [hdata] at hcode
      cases hcode
    rw [get_append, if_neg hother, ByteArray.append_empty]
  refine ⟨h.whole.move (.writes bytes hdata), ?_, ?_, ?_⟩
  · intro st hst
    rw [get_append, ByteArray.size_append]
    exact le_add_right (h.inside st hst)
  · intro seg hcode
    rw [hkept seg hcode]
    exact h.codes seg hcode
  · intro seg hcode
    rw [hkept seg hcode]
    exact h.found seg hcode

/-- A line that is placed is listed with its words, which lie behind all others of the segment. -/
theorem places (h : Tiled s) {line : Text} {c : State.Coded} (hc : s.codedLine line = .ok c)
    (hshort : Short (s.place line c)) : Tiled (s.place line c) := by
  obtain ⟨hcode, haligned, -⟩ := codedLine_eq_ok hc
  obtain ⟨st, hlisting, -, hsegment, hoffset, hcodes⟩ := place_listing s line c
  have hspot : st.offset.toNat = (s.sections.get s.segment).size := by
    rw [hoffset]
    exact UInt64.toNat_ofNat_of_lt'
      (lt_of_le_of_lt ((Move.places line c hc).short hshort s.segment) (by decide))
  refine ⟨h.whole.move (.places line c hc), ?_, ?_, ?_⟩
  · intro other hother
    rw [place_sections, ByteArray.size_append]
    rw [hlisting, Array.toList_push, List.mem_append, List.mem_singleton] at hother
    rcases hother with hold | rfl
    · exact le_add_right (h.inside other hold)
    · rw [hsegment, if_pos rfl, Bytes.size_ofList, length_wordBytes, hspot, hcodes]
  · intro seg hseg
    rw [hlisting, Listing.codes_push, h.codes seg hseg, hsegment, place_sections]
    by_cases hhere : s.segment = seg
    · subst hhere
      rw [if_pos rfl, if_pos rfl, ← hcodes, Listing.codesIn_append haligned hoffset]
    · rw [if_neg hhere, if_neg (Ne.symm hhere), ByteArray.append_empty, List.append_nil]
  · intro seg hseg k hk
    have hfits : (UInt64.ofNat k).toNat = k :=
      UInt64.toNat_ofNat_of_lt' (lt_of_lt_of_le hk (le_trans (hshort seg) (by decide)))
    have hwhole := h.whole seg hseg
    rw [hlisting]
    by_cases hold : k < (s.sections.get seg).size
    · rw [place_sections, Bytes.wordAt_append_left _ (by omega)]
      exact Listing.codeAt?_push (h.found seg hseg k hold) st
    · -- a byte that was not there before lies in one of the words of the line
      rw [place_sections, ByteArray.size_append] at hk
      have hhere : seg = s.segment := by
        by_contra hne
        rw [if_neg hne, ByteArray.size_empty] at hk
        omega
      subst hhere
      rw [if_pos rfl, Bytes.size_ofList, length_wordBytes] at hk
      have hword : k / 4 * 4 =
          (s.sections.get s.segment).size + 4 * ((k - (s.sections.get s.segment).size) / 4) := by
        omega
      refine Listing.codeAt?_push_self hsegment ?_ (by omega) ?_
      · intro other hother hsame
        have hend := h.inside other hother
        rw [hsame] at hend
        omega
      · rw [hfits, hspot, hcodes, place_sections, if_pos rfl, hword]
        exact getElem?_wordBytes _ (by omega)

theorem move (h : Tiled s) (hmove : Move s t) (ht : Short t) : Tiled t := by
  cases hmove with
  | aside hsame => exact h.of_same hsame.listing hsame.sections
  | waits | binds => exact h.of_same rfl rfl
  | writes bytes hdata => exact h.writes hdata
  | places line c hc => exact h.places hc ht

/-- After all moves the statements tile the code, unless a section has become too long. -/
theorem moves (h : Tiled s) (hmoves : Moves s t) (ht : Short t) : Tiled t := by
  induction hmoves with
  | refl => exact h
  | tail _ hmove ih => exact (ih (hmove.short ht)).move hmove ht

/-- A statement is found exactly for the offsets of the code. -/
theorem lookup?_isSome_iff (h : Tiled s) {seg : Segment} (hcode : seg.isCode = true) (offset : UInt64) :
    (s.listing.lookup? seg offset).isSome = true ↔ offset.toNat < (s.sections.get seg).size := by
  constructor
  · intro hsome
    obtain ⟨⟨st, index⟩, hfound⟩ := Option.isSome_iff_exists.1 hsome
    obtain ⟨hst, hplace⟩ := Listing.lookup?_eq_some hfound
    obtain ⟨rfl, hfrom, rfl, hin⟩ := Listing.placeIn?_eq_some_iff.1 hplace
    have hend := h.inside st hst
    omega
  · intro hin
    have hcoded := h.found seg hcode offset.toNat hin
    rw [UInt64.ofNat_toNat] at hcoded
    obtain ⟨_, hfound, -⟩ := Option.bind_eq_some_iff.1 hcoded
    rw [hfound]
    rfl

/-- A statement that is found for an offset holds the word there. -/
theorem getElem?_of_lookup? (h : Tiled s) {seg : Segment} (hcode : seg.isCode = true) {offset : UInt64}
    {st : Statement} {index : Nat} (hfound : s.listing.lookup? seg offset = some (st, index)) :
    st.codes[index]? = some (Bytes.wordAt (s.sections.get seg) (offset.toNat / 4 * 4)) := by
  obtain ⟨hst, hplace⟩ := Listing.lookup?_eq_some hfound
  obtain ⟨rfl, hfrom, hindex, hin⟩ := Listing.placeIn?_eq_some_iff.1 hplace
  have hend := h.inside st hst
  have hcoded := h.found st.segment hcode offset.toNat (by omega)
  rw [UInt64.ofNat_toNat, Listing.codeAt?, hfound] at hcoded
  exact hcoded

end Tiled

/-! ### One line -/

/-- What the assembly of a line adds to the listing: statements under the number of the line, each with its
    words behind what was there and within what is there then. -/
structure Adds (s t : State) : Prop where
  lineNo : t.lineNo = s.lineNo
  grows : ∀ seg, (s.sections.get seg).size ≤ (t.sections.get seg).size
  listing : ∃ more, t.listing.toList = s.listing.toList ++ more ∧
    ∀ st ∈ more, st.lineNo = s.lineNo ∧ ∃ k, st.offset = UInt64.ofNat k ∧
      (s.sections.get st.segment).size ≤ k ∧ k + 4 * st.codes.length ≤ (t.sections.get st.segment).size

theorem Moves.grows {s t : State} (h : Moves s t) (seg : Segment) :
    ∃ more, t.sections.get seg = s.sections.get seg ++ more := by
  induction h with
  | refl => exact ⟨ByteArray.empty, ByteArray.append_empty.symm⟩
  | tail _ hmove ih =>
      obtain ⟨first, hfirst⟩ := ih
      obtain ⟨second, hsecond⟩ := hmove.grows seg
      exact ⟨first ++ second, by rw [hsecond, hfirst, ByteArray.append_assoc]⟩

theorem Moves.size_le {s t : State} (h : Moves s t) (seg : Segment) :
    (s.sections.get seg).size ≤ (t.sections.get seg).size := by
  obtain ⟨more, hmore⟩ := h.grows seg
  rw [hmore, ByteArray.size_append]
  exact Nat.le_add_right _ _

namespace Adds

variable {s t u : State}

/-- Nothing is listed. -/
theorem of_moves (h : Moves s t) (hlineNo : t.lineNo = s.lineNo) (hlisting : t.listing = s.listing) :
    Adds s t := by
  refine ⟨hlineNo, h.size_le, [], ?_, by simp⟩
  rw [hlisting, List.append_nil]

theorem trans (h : Adds s t) (hnext : Adds t u) : Adds s u := by
  obtain ⟨more, hmore, hfirst⟩ := h.listing
  obtain ⟨others, hothers, hsecond⟩ := hnext.listing
  refine ⟨hnext.lineNo.trans h.lineNo, fun seg => le_trans (h.grows seg) (hnext.grows seg),
    more ++ others, by rw [hothers, hmore, List.append_assoc], ?_⟩
  intro st hst
  rcases List.mem_append.1 hst with hst | hst
  · obtain ⟨hline, k, hoffset, hfrom, hend⟩ := hfirst st hst
    exact ⟨hline, k, hoffset, hfrom, le_trans hend (hnext.grows st.segment)⟩
  · obtain ⟨hline, k, hoffset, hfrom, hend⟩ := hsecond st hst
    exact ⟨hline.trans h.lineNo, k, hoffset, le_trans (h.grows st.segment) hfrom, hend⟩

theorem place {line : Text} {c : State.Coded} (h : s.codedLine line = .ok c) :
    Adds s (s.place line c) := by
  obtain ⟨st, hlisting, hlineNo, hsegment, hoffset, hcodes⟩ := place_listing s line c
  refine ⟨rfl, Moves.size_le (.single (.places line c h)), [st], ?_, ?_⟩
  · rw [hlisting, Array.toList_push]
  · intro other hother
    rw [List.mem_singleton.1 hother]
    refine ⟨hlineNo, _, hoffset, by rw [hsegment], ?_⟩
    rw [hsegment, place_sections, if_pos rfl, ByteArray.size_append, Bytes.size_ofList,
      length_wordBytes, hcodes]

end Adds

theorem emitScalars_listing (items : List (List UInt8)) (align : Nat) (s : State) :
    (s.emitScalars align items).lineNo = s.lineNo ∧ (s.emitScalars align items).listing = s.listing := by
  induction items generalizing s with
  | nil => exact ⟨rfl, rfl⟩
  | cons item rest ih => exact ih ((s.padTo align).emit (Bytes.ofList item))

theorem addGlobal_listing (labels : List Text) (s : State) :
    (labels.foldl State.addGlobal s).lineNo = s.lineNo ∧
      (labels.foldl State.addGlobal s).listing = s.listing := by
  induction labels generalizing s with
  | nil => exact ⟨rfl, rfl⟩
  | cons label rest ih => exact ih (s.addGlobal label)

/-- A directive lists nothing. -/
theorem Directs.listing {s t : State} {name args : Text} (h : Directs s name args t) :
    t.lineNo = s.lineNo ∧ t.listing = s.listing := by
  cases h with
  | enters segment =>
      simp only [State.enter]
      constructor
      all_goals split <;> split <;> rfl
  | kernelStart | entry | externs => exact ⟨rfl, rfl⟩
  | globals _ labels => exact addGlobal_listing labels s
  | data _ _ hwrites =>
      cases hwrites with
      | scalars => exact emitScalars_listing _ _ s
      | _ => exact ⟨rfl, rfl⟩

theorem Act.adds {a : Act} {s t : State} (h : a.run s = .ok t) : Adds s t := by
  have hmoves := Act.moves h
  cases a with
  | labels text =>
      obtain rfl := declareAll_eq_ok h
      exact .of_moves hmoves rfl rfl
  | directive name args labelled =>
      obtain ⟨hlineNo, hlisting⟩ := (directive_cases h).listing
      exact .of_moves hmoves hlineNo hlisting
  | instruction line =>
      obtain ⟨c, hc, rfl⟩ := instruction_eq_ok h
      exact .place hc

theorem Aside.adds {s t : State} (h : Aside s t) : Adds s t :=
  .of_moves (.aside (Passes.aside h).same) (by cases h <;> rfl) (by cases h <;> rfl)

/-- Within a line everything that is listed has the number of the line. -/
theorem Course.adds {s t : State} {deeds : List Deed} (h : Course Aside s deeds (.ok t)) : Adds s t := by
  have haside : ∀ {u v : State}, Relation.ReflTransGen Aside u v → Adds u v := by
    intro u v hsteps
    induction hsteps with
    | refl => exact .of_moves .refl rfl rfl
    | tail _ hstep ih => exact ih.trans hstep.adds
  induction h using Course.ok_induction with
  | ends h => exact haside h
  | does h hdeed _ ih => exact ((haside h).trans (Act.adds hdeed)).trans ih

/-! ### Line by line -/

/-- The state after some of the lines of a source. -/
def afterLines (a : Assembler) (source : Text) (n : Nat) : Except Failure State :=
  assembleLines (source.lines.take n) { a.start with labels := labelsOf source.lines }

/-- The byte at an offset of a segment is written by the line with a number: it is not there after the lines
    before, and it is there after the line. -/
def Wrote (a : Assembler) (source : Text) (seg : Segment) (offset lineNo : Nat) : Prop :=
  ∃ n before after, lineNo = n + 1 ∧ n < source.lines.length ∧ a.afterLines source n = .ok before ∧
    a.afterLines source (n + 1) = .ok after ∧ (before.sections.get seg).size ≤ offset ∧
    offset < (after.sections.get seg).size

/-- Every statement that lines add is added by one of them and has its number. -/
theorem assembleLines_adds {lines : List Text} {s t : State} (h : assembleLines lines s = .ok t) :
    ∃ more, t.listing.toList = s.listing.toList ++ more ∧ ∀ st ∈ more,
      ∃ n before after k, st.lineNo = s.lineNo + n + 1 ∧ n < lines.length ∧
        assembleLines (lines.take n) s = .ok before ∧ assembleLines (lines.take (n + 1)) s = .ok after ∧
        st.offset = UInt64.ofNat k ∧ (before.sections.get st.segment).size ≤ k ∧
        k + 4 * st.codes.length ≤ (after.sections.get st.segment).size ∧
        (after.sections.get st.segment).size ≤ (t.sections.get st.segment).size := by
  induction lines generalizing s with
  | nil =>
      cases h
      exact ⟨[], (List.append_nil _).symm, by simp⟩
  | cons text rest ih =>
      rw [assembleLines] at h
      split at h
      · cases h
      · rename_i next hnext
        have hcourse := assembleSourceLine_course s text
        rw [hnext] at hcourse
        obtain ⟨hread, -, first, hfirst, hline⟩ := hcourse.adds
        have hlineNo : next.lineNo = s.lineNo + 1 := hread
        obtain ⟨others, hothers, hlater⟩ := ih h
        have htake (n : Nat) : assembleLines ((text :: rest).take (n + 1)) s =
            assembleLines (rest.take n) next := by
          rw [List.take_succ_cons, assembleLines, hnext]
        refine ⟨first ++ others, by rw [hothers, hfirst, List.append_assoc]; rfl, ?_⟩
        intro st hst
        rcases List.mem_append.1 hst with hst | hst
        · obtain ⟨hnumber, k, hoffset, hfrom, hend⟩ := hline st hst
          refine ⟨0, s, next, k, hnumber, by simp, rfl, ?_, hoffset, hfrom, hend,
            (assembleLines_moves h).size_le _⟩
          rw [htake, List.take_zero, assembleLines]
        · obtain ⟨n, before, after, k, hnumber, hn, hbefore, hafter, hplace⟩ := hlater st hst
          refine ⟨n + 1, before, after, k, ?_, by simpa using hn, ?_, ?_, hplace⟩
          · rw [hnumber, hlineNo]
            omega
          · rw [htake, hbefore]
          · rw [htake, hafter]

/-! ### Failures -/

theorem cause_locate (s : State) (e : Error) : (locate s e).cause = e.cause := by
  rw [locate]
  split <;> rfl

/-- What is told of a failure has its cause, unless the process has ended before it. -/
theorem Failure.cause_told (f : Failure) :
    f.told.cause = f.error.cause ∨ f.told = .exhausted .memory := by
  rw [Failure.told]
  split
  · exact .inr rfl
  · exact .inl (cause_locate _ _)

theorem declareAll_cause_ne {marks : List Mark} {s : State} {f : Failure}
    (h : s.declareAll marks = .error f) : f.error.cause ≠ .textAlign := by
  induction marks generalizing s with
  | nil => cases h
  | cons mark rest ih =>
      rw [State.declareAll] at h
      split at h
      · rename_i hmark
        cases h
        rw [State.declare] at hmark
        split at hmark
        · cases hmark
          simp [Error.cause]
        · split at hmark
          · cases hmark
            simp [Error.cause]
          · cases hmark
      · exact ih h

theorem instructionsOf_eq_error {tb : Table} {steps : List Step} {e : Error}
    (h : instructionsOf tb steps = .error e) : ∃ cause, e = .instruction cause := by
  induction steps with
  | nil => cases h
  | cons step rest ih =>
      rw [instructionsOf] at h
      split at h
      · rename_i hstep
        cases h
        simp only [Step.instruction] at hstep
        split at hstep
        · split at hstep
          · exact ⟨_, (Except.error.inj hstep).symm⟩
          · cases hstep
        · exact ⟨_, (Except.error.inj hstep).symm⟩
      · exact ih (map_eq_error h)

theorem realInstructions_eq_error {tb : Table} {x : Instruction} {e : Error}
    (h : realInstructions tb x = .error e) : ∃ cause, e = .instruction cause := by
  rw [realInstructions] at h
  split at h
  · cases h
  · split at h
    · exact ⟨_, (Except.error.inj h).symm⟩
    · exact instructionsOf_eq_error h

theorem encodeAll_eq_error {parts : List Instruction} {e : Error} (h : encodeAll parts = .error e) :
    ∃ cause, e = .instruction cause := by
  induction parts with
  | nil => cases h
  | cons part rest ih =>
      rw [encodeAll] at h
      split at h
      · exact ⟨_, (Except.error.inj h).symm⟩
      · exact ih (map_eq_error h)

/-- An instruction line fails for its place, for code that is not made of whole words, or for its
    instruction. -/
theorem codedLine_eq_error {s : State} {line : Text} {e : Error} (h : s.codedLine line = .error e) :
    e = .instructionInData ∨ e = .textAlign ∧ s.segment.isCode = true ∧ s.filled % 4 ≠ 0 ∨
      ∃ cause, e = .instruction cause := by
  rw [State.codedLine] at h
  split at h
  · exact .inl (Except.error.inj h).symm
  · rename_i hcode
    right
    split at h
    · rename_i hfilled
      exact .inl ⟨(Except.error.inj h).symm, by simpa using hcode, hfilled⟩
    · right
      split at h
      · exact ⟨_, (Except.error.inj h).symm⟩
      · split at h
        · rename_i hparts
          cases h
          exact realInstructions_eq_error hparts
        · exact encodeAll_eq_error (map_eq_error h)

/-- An act never comes to code that is not made of whole words. -/
theorem Act.cause_ne {a : Act} {s : State} {f : Failure} (h : a.run s = .error f) (hs : Whole s) :
    f.error.cause ≠ .textAlign := by
  cases a with
  | labels text => exact declareAll_cause_ne h
  | directive name args labelled =>
      have hof := isOfDirective_cause (isOfDirective_of_directive h)
      intro hcause
      rw [hcause] at hof
      cases hof
  | instruction line =>
      rw [Act.run, State.instruction] at h
      split at h
      · rename_i hfault
        cases h
        obtain rfl | ⟨-, hcode, hfilled⟩ | ⟨cause, rfl⟩ := codedLine_eq_error hfault
        · simp [Error.cause]
        · exact absurd (Nat.mod_eq_zero_of_dvd (hs s.segment hcode)) hfilled
        · simp [Error.cause]
      · cases h

theorem start_whole (a : Assembler) (labels : List Text) : Whole { a.start with labels := labels } := by
  intro seg _
  rw [start, PerSegment.get_ofFn]
  exact Nat.dvd_zero 4

theorem assembleLines_cause_ne {lines : List Text} {s : State} {f : Failure}
    (h : assembleLines lines s = .error f) (hs : Whole s) : f.error.cause ≠ .textAlign := by
  have hcourse := assembleLines_course lines s
  rw [h] at hcourse
  rcases hcourse.cause with hof | ⟨d, hd, g, hbroken, hcause⟩
  · intro hcause
    rw [hcause] at hof
    cases hof
  · rw [hcause]
    exact Act.cause_ne hbroken (hs.moves (hcourse.moves_to hd))

/-- The end of a source fails for a missing label. -/
theorem finish_eq_error {s : State} {e : Error} (h : s.finish.2 = .error e) :
    ∃ source label, e = State.missing source label := by
  simp only [State.finish] at h
  generalize (if s.started then s.bindLabels else s) = u at h
  split at h
  · rename_i hmissing
    cases h
    rcases Option.or_eq_some_iff.1 hmissing with hglobal | ⟨-, hlabel⟩
    · obtain ⟨label, -, hfound⟩ := List.exists_of_findSome?_eq_some hglobal
      split at hfound
      · cases hfound
      · obtain ⟨source, -, rfl⟩ := Option.map_eq_some_iff.1 hfound
        exact ⟨source, label, rfl⟩
    · obtain ⟨r, -, hfound⟩ := List.exists_of_findSome?_eq_some hlabel
      split at hfound
      · cases hfound
      · exact ⟨_, _, (Option.some.inj hfound).symm⟩
  · split at h
    · cases h
    · split at h
      · exact ⟨_, _, (Except.error.inj h).symm⟩
      · cases h

/-- What can be wrong with a source as a whole. -/
def Error.isOfSource : Error → Bool
  | .lineTooLong | .macroOpen | .labelMissing _ | .exhausted _ => true
  | _ => false

/-- An assembly fails in one of the lines of its source, or for the source as a whole. -/
theorem assemble_eq_error {a : Assembler} {source : Text} {e : Error}
    (h : (assemble a source).2 = .error e) :
    e.cause.isOfSource = true ∨ source.hasLongLine = false ∧
      ∃ f, assembleLines source.lines { a.start with labels := labelsOf source.lines } = .error f ∧
        e.cause = f.error.cause := by
  simp only [assemble] at h
  split at h
  · cases h
    exact .inl (by rw [cause_locate]; rfl)
  · rename_i hshort
    split at h
    · rename_i f hlines
      cases h
      rcases f.cause_told with hcause | hended
      · exact .inr ⟨by simpa using hshort, f, hlines, hcause⟩
      · exact .inl (by rw [hended]; rfl)
    · left
      split at h
      · cases h
        rfl
      · split at h
        · cases h
          rw [cause_locate]
          rfl
        · rename_i s _ _ _
          cases hfinish : s.finish.2 with
          | error fault =>
              rw [hfinish] at h
              obtain ⟨reference, label, rfl⟩ := finish_eq_error hfinish
              cases h
              rw [cause_locate]
              rfl
          | ok file =>
              rw [hfinish] at h
              cases h

/-- No assembly fails because code does not stand on words. -/
theorem assemble_cause_ne {a : Assembler} {source : Text} {e : Error}
    (h : (assemble a source).2 = .error e) : e.cause ≠ .textAlign := by
  rcases assemble_eq_error h with hof | ⟨-, f, hlines, hcause⟩
  · intro hcause
    rw [hcause] at hof
    cases hof
  · rw [hcause]
    exact assembleLines_cause_ne hlines (start_whole a _)

/-! ### Whole sources -/

theorem start_tiled (a : Assembler) (labels : List Text) : Tiled { a.start with labels := labels } := by
  have hempty (seg : Segment) : ({ a.start with labels := labels } : State).sections.get seg =
      ByteArray.empty := by
    rw [start, PerSegment.get_ofFn]
  refine ⟨start_whole a labels, by simp [start], ?_, ?_⟩
  · intro seg _
    rw [hempty]
    rfl
  · intro seg _ k hk
    rw [hempty, ByteArray.size_empty] at hk
    omega

/-- The end of a source adds nothing to the sections and the listing. -/
theorem finish_eq_ok {s : State} {file : ObjectFile} (h : s.finish.2 = .ok file) :
    s.finish.1.listing = s.listing ∧ ∀ seg, (file.sections.get seg).data = s.sections.get seg := by
  have hsame : s.finish.1.listing = s.listing ∧ s.finish.1.sections = s.sections := by
    rcases finish_state s with hend | hend <;> rw [hend] <;> exact ⟨rfl, rfl⟩
  refine ⟨hsame.1, fun seg => ?_⟩
  rw [(finished_of_finish h).sections, PerSegment.get_ofFn, hsame.2]

/-- A statement that is listed for a source has the number of the line that wrote the bytes it covers. -/
theorem wrote_of_mem {a : Assembler} {source : Text} {s : State}
    (hlines : assembleLines source.lines { a.start with labels := labelsOf source.lines } = .ok s)
    (hshort : Short s) {st : Statement} (hst : st ∈ s.listing.toList) {offset : Nat}
    (hfrom : st.offset.toNat ≤ offset) (hend : offset < st.offset.toNat + 4 * st.codes.length) :
    Wrote a source st.segment offset st.lineNo := by
  obtain ⟨more, hmore, hadded⟩ := assembleLines_adds hlines
  have hnew : st ∈ more := by
    rw [hmore] at hst
    exact hst
  obtain ⟨n, before, after, k, hnumber, hn, hbefore, hafter, hoffset, hbehind, hwithin, hgrown⟩ :=
    hadded st hnew
  have hk : st.offset.toNat = k := by
    have hmax := hshort st.segment
    rw [hoffset]
    exact UInt64.toNat_ofNat_of_lt' (lt_of_le_of_lt (by omega : k ≤ Bytes.lengthMax) (by decide))
  have hfirst : st.lineNo = 0 + n + 1 := hnumber
  exact ⟨n, before, after, by omega, hn, hbefore, hafter, by omega, by omega⟩

/-- The listing tiles the code. No assembly fails because code does not stand on words. If a source is
    assembled, then for user and for kernel code the codes that are listed are the words of the section in
    order, each with its offset; a statement is found exactly for the offsets inside the section; and the
    one that is found holds the word that the offset lies in, under the number of the line of the source
    that wrote it. -/
theorem assemble_tiles (a : Assembler) (source : Text) :
    (∀ e, (assemble a source).2 = .error e → e.cause ≠ .textAlign) ∧
    ∀ file, (assemble a source).2 = .ok file → ∀ seg : Segment, seg.isCode = true →
      let listing := (assemble a source).1.listing
      let image := (file.sections.get seg).data
      4 ∣ image.size ∧ listing.codes seg = Listing.codesIn image ∧
      ∀ offset : UInt64,
        ((listing.lookup? seg offset).isSome = true ↔ offset.toNat < image.size) ∧
        ∀ st index, listing.lookup? seg offset = some (st, index) →
          st.codes[index]? = some (Bytes.wordAt image (offset.toNat / 4 * 4)) ∧
          Wrote a source seg offset.toNat st.lineNo := by
  refine ⟨fun e he => assemble_cause_ne he, ?_⟩
  intro file h seg hcode
  obtain ⟨s, hlines, hshort, hfinish, hlast⟩ := assemble_eq_ok h
  obtain ⟨hlisting, hsections⟩ := finish_eq_ok hfinish
  have htiled := (start_tiled a _).moves (assembleLines_moves hlines) hshort
  rw [hlast, hlisting, hsections]
  refine ⟨htiled.whole seg hcode, htiled.codes seg hcode, fun offset => ?_⟩
  refine ⟨htiled.lookup?_isSome_iff hcode offset, fun st index hfound => ?_⟩
  refine ⟨htiled.getElem?_of_lookup? hcode hfound, ?_⟩
  obtain ⟨hst, hplace⟩ := Listing.lookup?_eq_some hfound
  obtain ⟨rfl, hfrom, rfl, hin⟩ := Listing.placeIn?_eq_some_iff.1 hplace
  exact wrote_of_mem hlines hshort hst hfrom (by omega)

/-- A source with user code before and after kernel code, the later part from a macro. -/
def steppedSource : Text :=
  Text.ofString (".macro twice r\naddi r, r, 1\naddi r, r, 2\n.endm\n.text\nla %v0, 7\n" ++
    ".ktext\nsyscall\n.text\ntwice %v0\n")

theorem assemble_tiles_steppedSource : ∃ file st,
    (assemble (Command.assembler []) steppedSource).2 = .ok file ∧
    (assemble (Command.assembler []) steppedSource).1.listing.lookup? .text 22 = some (st, 0) ∧
    st.lineNo = 10 ∧ st.codes[0]? = some (Bytes.wordAt (file.sections.get .text).data 20) ∧
    Wrote (Command.assembler []) steppedSource .text 22 10 ∧
    ((assemble (Command.assembler []) steppedSource).1.listing.lookup? .text 24).isSome = false := by
  have hrun : ((assemble (Command.assembler []) steppedSource).2.toOption.map fun file =>
        (file.sections.get .text).data.size,
      ((assemble (Command.assembler []) steppedSource).1.listing.lookup? .text 22).map fun (st, index) =>
        (st.lineNo, index)) = (some 24, some (10, 0)) := by
    decide +kernel
  obtain ⟨hobject, hfound⟩ := Prod.mk.inj hrun
  cases h : (assemble (Command.assembler []) steppedSource).2 with
  | error e =>
      rw [h] at hobject
      cases hobject
  | ok file =>
      rw [h] at hobject
      have hsize : (file.sections.get .text).data.size = 24 := Option.some.inj hobject
      obtain ⟨⟨st, index⟩, hlookup, hnumbers⟩ := Option.map_eq_some_iff.1 hfound
      obtain ⟨hline, hindex⟩ := Prod.mk.inj hnumbers
      obtain rfl : index = 0 := hindex
      obtain ⟨-, -, htold⟩ := (assemble_tiles (Command.assembler []) steppedSource).2 file h .text rfl
      obtain ⟨hcode, hwrote⟩ := (htold 22).2 st 0 hlookup
      refine ⟨file, st, rfl, hlookup, hline, hcode, hline ▸ hwrote, ?_⟩
      rw [Bool.eq_false_iff, ne_eq, (htold 24).1, hsize]
      decide

end Assembler

end VectorRisc
