/-
Module: VectorRisc.Proofs.Assembler.Listing
Layer: Proofs
Purpose: A listing tells of all the code of an object. Every word of a code section of an object that is
  assembled is listed under its offset, and what is listed are the words of real instructions.
Imports: Mathlib.Tactic, VectorRisc.Proofs.Assembler.Tiling
Trusted boundary: none
Main exports: Assembler.Listed, Assembler.Listed.move, Assembler.Listed.moves, Assembler.assemble_listed
Open obligations: none
-/
import Mathlib.Tactic
import VectorRisc.Proofs.Assembler.Tiling

namespace VectorRisc

namespace Assembler

/-! ### The words of a line -/

/-- A step of an expansion becomes a real instruction of the table. -/
theorem mem_of_step {tb : Table} {step : Step} {x : Instruction} (h : step.instruction tb = .ok x) :
    x.mnemonic ∈ tb.list ∧ x.mnemonic.isPseudo = false := by
  simp only [Step.instruction] at h
  split at h
  · rename_i m hm
    split at h
    · cases h
    · rename_i hreal
      cases h
      exact ⟨List.mem_of_find?_eq_some hm, by simpa using hreal⟩
  · cases h

theorem mem_of_instructionsOf {tb : Table} {steps : List Step} {parts : List Instruction}
    (h : instructionsOf tb steps = .ok parts) :
    ∀ x ∈ parts, x.mnemonic ∈ tb.list ∧ x.mnemonic.isPseudo = false := by
  induction steps generalizing parts with
  | nil =>
      cases h
      simp
  | cons step rest ih =>
      rw [instructionsOf] at h
      split at h
      · cases h
      · rename_i first hfirst
        obtain ⟨others, hothers, rfl⟩ := map_eq_ok.1 h
        intro x hx
        rcases List.mem_cons.1 hx with rfl | hrest
        · exact mem_of_step hfirst
        · exact ih hothers x hrest

/-- A line stands for real instructions of the table. -/
theorem mem_of_realInstructions {tb : Table} {x : Instruction} (hx : x.mnemonic ∈ tb.list)
    {parts : List Instruction} (h : realInstructions tb x = .ok parts) :
    ∀ part ∈ parts, part.mnemonic ∈ tb.list ∧ part.mnemonic.isPseudo = false := by
  rw [realInstructions] at h
  split at h
  · rename_i hreal
    cases h
    intro part hpart
    rw [List.mem_singleton.1 hpart]
    exact ⟨hx, by simpa using hreal⟩
  · split at h
    · cases h
    · exact mem_of_instructionsOf h

theorem mem_of_encodeAll {parts : List Instruction} {codes : List Word} (h : encodeAll parts = .ok codes) :
    ∀ code ∈ codes, ∃ part ∈ parts, part.encode = .ok code := by
  induction parts generalizing codes with
  | nil =>
      cases h
      simp
  | cons part rest ih =>
      rw [encodeAll] at h
      split at h
      · cases h
      · rename_i w hw
        obtain ⟨others, hothers, rfl⟩ := map_eq_ok.1 h
        intro code hcode
        rcases List.mem_cons.1 hcode with rfl | hrest
        · exact ⟨part, List.mem_cons_self, hw⟩
        · obtain ⟨other, hother, hencode⟩ := ih hothers code hrest
          exact ⟨other, List.mem_cons_of_mem _ hother, hencode⟩

/-- The words of a line are instructions. -/
theorem decode_of_codedLine {s : State} (htable : s.table = Table.standard) {line : Text}
    {c : State.Coded} (h : s.codedLine line = .ok c) :
    ∀ code ∈ c.codes, ∃ x, Instruction.decode Table.standard code = .ok x := by
  obtain ⟨-, -, hparse, hparts, hcodes⟩ := codedLine_eq_ok h
  rw [htable] at hparse hparts
  intro code hcode
  obtain ⟨part, hpart, hencode⟩ := mem_of_encodeAll hcodes code hcode
  obtain ⟨hm, hreal⟩ := mem_of_realInstructions (Instruction.parse_eq_ok hparse).1 hparts part hpart
  have hcarries := Instruction.carries_of_encode (Mnemonic.standard_valid.fits _ hm hreal) hencode
  exact ⟨_, Instruction.decode_of_carries hm hreal hcarries⟩

/-! ### One move -/

/-- The listing tells of all the code: statements lie in their sections and hold instructions, and every
    word of code is listed. -/
structure Listed (s : State) : Prop where
  inside : ∀ st ∈ s.listing.toList,
    st.offset.toNat + 4 * st.codes.length ≤ (s.sections.get st.segment).size
  decodes : ∀ st ∈ s.listing.toList, ∀ code ∈ st.codes,
    ∃ x, Instruction.decode Table.standard code = .ok x
  codes : ∀ seg : Segment, seg.isCode = true → ∀ k, 4 ∣ k → k + 4 ≤ (s.sections.get seg).size →
    s.listing.codeAt? seg (UInt64.ofNat k) = some (Bytes.wordAt (s.sections.get seg) k)

namespace Listed

variable {s t : State}

/-- Statements that tile the code tell of all of it, if they hold instructions. -/
theorem of_tiled (h : Tiled s) (hdecodes : ∀ st ∈ s.listing.toList, ∀ code ∈ st.codes,
    ∃ x, Instruction.decode Table.standard code = .ok x) : Listed s := by
  refine ⟨h.inside, hdecodes, ?_⟩
  intro seg hcode k hk hin
  have hfound := h.found seg hcode k (by omega)
  rwa [Nat.div_mul_cancel hk] at hfound

/-- A line that is placed is listed with its words, which are instructions. -/
theorem places (h : Listed s) (htable : s.table = Table.standard) {line : Text} {c : State.Coded}
    (hc : s.codedLine line = .ok c) :
    ∀ st ∈ (s.place line c).listing.toList, ∀ code ∈ st.codes,
      ∃ x, Instruction.decode Table.standard code = .ok x := by
  obtain ⟨added, hlisting, -, -, -, hcodes⟩ := place_listing s line c
  intro st hst
  rw [hlisting, Array.toList_push, List.mem_append, List.mem_singleton] at hst
  rcases hst with hold | rfl
  · exact h.decodes st hold
  · rw [hcodes]
    exact decode_of_codedLine htable hc

theorem move (h : Listed s) (htable : s.table = Table.standard) (hmove : Move s t) (ht : Tiled t) :
    Listed t := by
  refine of_tiled ht ?_
  cases hmove with
  | aside hsame =>
      rw [hsame.listing]
      exact h.decodes
  | waits | binds | writes => exact h.decodes
  | places line c hc => exact h.places htable hc

/-- After all moves the listing tells of all the code, unless a section has become too long. -/
theorem moves (h : Listed s) (htiled : Tiled s) (hsound : Sound s) (hmoves : Moves s t) (ht : Short t) :
    Listed t := by
  induction hmoves with
  | refl => exact h
  | tail hbefore hmove ih =>
      have hshort := hmove.short ht
      exact (ih hshort).move (hsound.moves hbefore hshort).table hmove
        (htiled.moves (hbefore.tail hmove) ht)

end Listed

/-! ### The end of a source -/

/-- Every word of code of an object is listed, and is an instruction. -/
theorem assemble_listed {host : Host} {predefined : Equates} {source : Text} {file : ObjectFile}
    (h : (assemble { host := host, predefined := predefined } source).2 = .ok file) {seg : Segment}
    (hcode : seg.isCode = true) {k : Nat} (hk : 4 ∣ k) (hin : k + 4 ≤ (file.sections.get seg).data.size) :
    let code := Bytes.wordAt (file.sections.get seg).data k
    (assemble { host := host, predefined := predefined } source).1.listing.codeAt? seg (UInt64.ofNat k) =
        some code ∧
      ∃ x, Instruction.decode Table.standard code = .ok x := by
  obtain ⟨s, hlines, hshort, hfinish, hlast⟩ := assemble_eq_ok h
  obtain ⟨hlisting, hsections⟩ := finish_eq_ok hfinish
  have htiled := start_tiled { host := host, predefined := predefined } (labelsOf source.lines)
  have hlisted := (Listed.of_tiled htiled (by simp [start])).moves htiled (start_sound host predefined _)
    (assembleLines_moves hlines) hshort
  rw [hsections] at hin
  rw [hlast, hlisting, hsections]
  have hfound := hlisted.codes seg hcode k hk hin
  refine ⟨hfound, ?_⟩
  obtain ⟨⟨st, index⟩, hlookup, hword⟩ := Option.bind_eq_some_iff.1 hfound
  exact hlisted.decodes st (Listing.lookup?_eq_some hlookup).1 _ (List.mem_of_getElem? hword)

end Assembler

end VectorRisc
