/-
Module: VectorRisc.Proofs.Object.Image
Layer: Proofs
Purpose: A linked image bit by bit. A segment of the executable is the sections of the inputs at their
  offsets, with zeros around them; a bit differs from the input it comes from only in the field of a
  relocation of that input.
Imports: Mathlib.Tactic, VectorRisc.Proofs.Object.Linked, VectorRisc.Proofs.Object.Tiling
Trusted boundary: none
Main exports: Bytes.bitAt, Bytes.bitAt_word, Patch.fieldStart, Relocation.Covers, Relocation.Changes,
  Linker.patch_bits, Linker.Chain.bits, Linker.Composed, Linker.combine_composed, Linker.link_composed
Open obligations: none
-/
import Mathlib.Tactic
import VectorRisc.Proofs.Object.Linked
import VectorRisc.Proofs.Object.Tiling

namespace VectorRisc

/-! ### Bits of an image -/

namespace Bytes

/-- The bit at a place of an image, counted from the low bit of its first byte. -/
def bitAt (image : ByteArray) (n : Nat) : Bool := (byteAt image (n / 8)).toNat.testBit (n % 8)

/-- A number has the bits of its bytes. -/
theorem testBit_toNat (bytes : List UInt8) (n : Nat) :
    (toNat bytes).testBit n = ((bytes[n / 8]?).getD 0).toNat.testBit (n % 8) := by
  induction bytes generalizing n with
  | nil => simp [toNat]
  | cons b rest ih =>
      have hb : b.toNat < 2 ^ 8 := b.toNat_lt
      have hsum : b.toNat + 256 * toNat rest = 2 ^ 8 * toNat rest + b.toNat := by omega
      rw [toNat, hsum, Nat.testBit_two_pow_mul_add _ hb]
      split
      · rename_i hlow
        rw [Nat.div_eq_of_lt hlow, Nat.mod_eq_of_lt hlow]
        rfl
      · rename_i hhigh
        have hdiv : n / 8 = (n - 8) / 8 + 1 := by omega
        have hmod : n % 8 = (n - 8) % 8 := by omega
        rw [ih, hdiv, hmod, List.getElem?_cons_succ]

/-- The bits of a word are those of the image from its first byte on. -/
theorem bitAt_word (image : ByteArray) (o : Nat) {b : Nat} (hb : b < 32) :
    bitAt image (8 * o + b) = (wordAt image o).toNat.testBit b := by
  have hlt := toNat_lt (window image o 4)
  rw [length_window] at hlt
  have hword : (wordAt image o).toNat = toNat (window image o 4) := UInt32.toNat_ofNat_of_lt' hlt
  have hbyte : (window image o 4)[b / 8]? = some (byteAt image (o + b / 8)) := by
    rw [window, List.getElem?_map, List.getElem?_range (by omega), Option.map_some]
  have hdiv : (8 * o + b) / 8 = o + b / 8 := by omega
  have hmod : (8 * o + b) % 8 = b % 8 := by omega
  rw [hword, testBit_toNat, hbyte, Option.getD_some, bitAt, hdiv, hmod]

theorem bitAt_of_byteAt {image other : ByteArray} {i j : Nat} (h : byteAt image i = byteAt other j)
    {b : Nat} (hb : b < 8) : bitAt image (8 * i + b) = bitAt other (8 * j + b) := by
  have hdiv : ∀ o, (8 * o + b) / 8 = o := by omega
  have hmod : ∀ o, (8 * o + b) % 8 = b := by omega
  rw [bitAt, bitAt, hdiv, hdiv, hmod, hmod, h]

/-- Bytes with the same bits are equal. -/
theorem byteAt_eq_of_bits {image other : ByteArray} {i j : Nat}
    (h : ∀ b < 8, bitAt image (8 * i + b) = bitAt other (8 * j + b)) :
    byteAt image i = byteAt other j := by
  apply UInt8.toNat_inj.1
  apply Nat.eq_of_testBit_eq
  intro b
  by_cases hb : b < 8
  · have hbit := h b hb
    have hdiv : ∀ o, (8 * o + b) / 8 = o := by omega
    have hmod : ∀ o, (8 * o + b) % 8 = b := by omega
    rwa [bitAt, bitAt, hdiv, hdiv, hmod, hmod] at hbit
  · have hpow : 2 ^ 8 ≤ 2 ^ b := Nat.pow_le_pow_right (by norm_num) (by omega)
    rw [Nat.testBit_lt_two_pow (lt_of_lt_of_le (UInt8.toNat_lt _) hpow),
      Nat.testBit_lt_two_pow (lt_of_lt_of_le (UInt8.toNat_lt _) hpow)]

end Bytes

/-! ### The fields of relocations -/

/-- The lowest bit of a word that a patch may change; it may change all bits above. -/
def Patch.fieldStart : Patch → Nat
  | .branch => 17
  | .jump => 7
  | .slice | .address => 16

namespace Relocation

/-- The byte at a place of the section lies in a word that the relocation changes. -/
def Covers (r : Relocation) (k : Nat) : Prop :=
  ∃ patch, r.kind.patch? = some patch ∧ r.position.toNat ≤ k ∧
    k < r.position.toNat + 4 * patch.words

/-- The bit at a place of the section lies in the field of a word that the relocation changes. -/
def Changes (r : Relocation) (n : Nat) : Prop :=
  ∃ patch, r.kind.patch? = some patch ∧ ∃ i < patch.words,
    8 * (r.position.toNat + 4 * i) + patch.fieldStart ≤ n ∧ n < 8 * (r.position.toNat + 4 * i) + 32

theorem Changes.covers {r : Relocation} {n : Nat} (h : r.Changes n) : r.Covers (n / 8) := by
  obtain ⟨patch, hpatch, i, hi, hfirst, hlast⟩ := h
  exact ⟨patch, hpatch, by omega, by omega⟩

end Relocation

namespace Linker

/-! ### One patch -/

/-- The bytes outside of a word that is changed stay. -/
theorem mapWord_bytes {image after : ByteArray} {offset : UInt64} {f : Word → Word}
    (h : mapWord image offset f = .ok after) {i : Nat}
    (hi : i < offset.toNat ∨ offset.toNat + 4 ≤ i) : Bytes.byteAt after i = Bytes.byteAt image i := by
  rw [mapWord] at h
  split at h
  · cases h
    refine Bytes.byteAt_overlay_of_outside ?_
    rwa [Bytes.length_ofNat]
  · cases h

/-- A function on words that keeps the bits below a place changes the field above it only. -/
theorem mapWord_bits {image after : ByteArray} {offset : UInt64} {f : Word → Word} {low : Nat}
    (hlow : ∀ w, (f w).toNat % 2 ^ low = w.toNat % 2 ^ low) (h : mapWord image offset f = .ok after)
    (n : Nat) : Bytes.bitAt after n = Bytes.bitAt image n ∨
      (8 * offset.toNat + low ≤ n ∧ n < 8 * offset.toNat + 32) := by
  obtain ⟨-, hword⟩ := mapWord_eq_ok h
  by_cases hin : 8 * offset.toNat ≤ n ∧ n < 8 * offset.toNat + 32
  · by_cases hfield : 8 * offset.toNat + low ≤ n
    · exact .inr ⟨hfield, hin.2⟩
    · left
      have hplace : n = 8 * offset.toNat + (n - 8 * offset.toNat) := by omega
      have hbits := congrArg (Nat.testBit · (n - 8 * offset.toNat))
        (hlow (Bytes.wordAt image offset.toNat))
      simp only [Nat.testBit_mod_two_pow, (by omega : n - 8 * offset.toNat < low), decide_true,
        Bool.true_and] at hbits
      rw [hplace, Bytes.bitAt_word _ _ (by omega), Bytes.bitAt_word _ _ (by omega), hword, hbits]
  · left
    rw [Bytes.bitAt, Bytes.bitAt, mapWord_bytes h (by omega)]

/-- The slices of an address are changed in the fields of their words. -/
theorem patchSlices_bits {addr offset : UInt64} {slices : List Nat} {image after : ByteArray}
    (hfits : ∀ i ∈ slices, offset.toNat + 4 * i < 2 ^ 64)
    (h : patchSlices addr offset slices image = .ok after) (n : Nat) :
    Bytes.bitAt after n = Bytes.bitAt image n ∨
      ∃ i ∈ slices, 8 * (offset.toNat + 4 * i) + 16 ≤ n ∧ n < 8 * (offset.toNat + 4 * i) + 32 := by
  induction slices generalizing image with
  | nil =>
      cases h
      exact .inl rfl
  | cons i rest ih =>
      rw [patchSlices] at h
      split at h
      · cases h
      · rename_i next hnext
        have hlow : ∀ w : Word, (w.setImmEI (sliceOf addr i)).toNat % 2 ^ 16 = w.toNat % 2 ^ 16 := by
          intro w
          rw [Word.toNat_setImmEI]
          omega
        have hspot : (offset + UInt64.ofNat (4 * i)).toNat = offset.toNat + 4 * i := by
          have hi := hfits i List.mem_cons_self
          rw [UInt64.toNat_add, UInt64.toNat_ofNat']
          omega
        rcases ih (fun k hk => hfits k (List.mem_cons_of_mem _ hk)) h with hkept | ⟨k, hk, hrange⟩
        · rcases mapWord_bits hlow hnext n with hsame | hfield
          · exact .inl (hkept.trans hsame)
          · rw [hspot] at hfield
            exact .inr ⟨i, List.mem_cons_self, hfield⟩
        · exact .inr ⟨k, List.mem_cons_of_mem _ hk, hrange⟩

/-- A patch changes the fields of its words only. -/
theorem patch_bits {fail : Cause → Error} {kind : RelocationKind} {pc addr offset : UInt64}
    {image after : ByteArray}
    (hfits : ∀ what, kind.patch? = some what → offset.toNat + 4 * what.words < 2 ^ 64)
    (h : patch fail kind pc addr offset image = .ok after) (n : Nat) :
    Bytes.bitAt after n = Bytes.bitAt image n ∨
      ∃ what, kind.patch? = some what ∧ ∃ i < what.words,
        8 * (offset.toNat + 4 * i) + what.fieldStart ≤ n ∧ n < 8 * (offset.toNat + 4 * i) + 32 := by
  -- a patch of one word changes the field of the word with number zero
  have hone : ∀ {what : Patch} {f : Word → Word}, kind.patch? = some what → 0 < what.words →
      (∀ w, (f w).toNat % 2 ^ what.fieldStart = w.toNat % 2 ^ what.fieldStart) →
      mapWord image offset f = .ok after → Bytes.bitAt after n = Bytes.bitAt image n ∨
        ∃ what, kind.patch? = some what ∧ ∃ i < what.words,
          8 * (offset.toNat + 4 * i) + what.fieldStart ≤ n ∧ n < 8 * (offset.toNat + 4 * i) + 32 := by
    intro what f hkind hwords hlow hmap
    rcases mapWord_bits hlow hmap n with hsame | hfield
    · exact .inl hsame
    · exact .inr ⟨what, hkind, 0, hwords, hfield⟩
  simp only [patch] at h
  split at h
  · cases h
    exact .inl rfl
  · rename_i hkind
    split at h
    · cases h
    · split at h
      · cases h
      · refine hone hkind Nat.one_pos (fun w => ?_) h
        rw [Word.toNat_setImmI, Patch.fieldStart]
        omega
  · rename_i hkind
    split at h
    · cases h
    · split at h
      · cases h
      · refine hone hkind Nat.one_pos (fun w => ?_) h
        rw [Word.toNat_setAddrJ, Patch.fieldStart]
        omega
  · rename_i hkind
    refine hone hkind Nat.one_pos (fun w => ?_) h
    rw [Word.toNat_setImmEI, Patch.fieldStart]
    omega
  · rename_i hkind
    have hwords : ∀ i ∈ [0, 1, 2, 3], i < 4 := by decide
    have hroom := hfits _ hkind
    rw [Patch.words] at hroom
    have hslices : ∀ i ∈ [0, 1, 2, 3], offset.toNat + 4 * i < 2 ^ 64 := by
      intro i hi
      have hlast := hwords i hi
      omega
    rcases patchSlices_bits hslices h n with hsame | ⟨i, hi, hfield⟩
    · exact .inl hsame
    · exact .inr ⟨.address, hkind, i, hwords i hi, hfield⟩

theorem size_patchSlices {addr offset : UInt64} {slices : List Nat} {image after : ByteArray}
    (h : patchSlices addr offset slices image = .ok after) : after.size = image.size := by
  induction slices generalizing image with
  | nil =>
      cases h
      rfl
  | cons i rest ih =>
      rw [patchSlices] at h
      split at h
      · cases h
      · rename_i next hnext
        exact (ih h).trans (mapWord_eq_ok hnext).1.size

/-- A patch keeps the size of the image, wherever it is. -/
theorem size_patch {fail : Cause → Error} {kind : RelocationKind} {pc addr offset : UInt64}
    {image after : ByteArray} (h : patch fail kind pc addr offset image = .ok after) :
    after.size = image.size := by
  simp only [patch] at h
  split at h
  · cases h
    rfl
  · split at h
    · cases h
    · split at h
      · cases h
      · exact (mapWord_eq_ok h).1.size
  · split at h
    · cases h
    · split at h
      · cases h
      · exact (mapWord_eq_ok h).1.size
  · exact (mapWord_eq_ok h).1.size
  · exact size_patchSlices h

/-! ### Relocations one after the other -/

namespace Job

/-- The relocation passes the linker's check that its words lie in the section of its input. -/
def Checked (j : Job) : Prop :=
  ¬Bytes.size64 (j.input.bytes j.segment) < j.relocation.position + 4 * wordsOf j.relocation.kind

/-- The bit at a place of the segment lies in the field of a word that the relocation changes. -/
def Changes (scene : Scene) (j : Job) (n : Nat) : Prop :=
  ∃ what, j.relocation.kind.patch? = some what ∧ ∃ i < what.words,
    8 * (j.offset scene + 4 * i) + what.fieldStart ≤ n ∧ n < 8 * (j.offset scene + 4 * i) + 32

/-- The words of the relocation lie in the address space, if they lie in the section. -/
def Fits (scene : Scene) (j : Job) : Prop :=
  j.Checked → ∀ what, j.relocation.kind.patch? = some what → j.offset scene + 4 * what.words < 2 ^ 64

end Job

/-- A relocation that is applied has passed its check and patched the image of its segment. -/
theorem relocate_patches {scene : Scene} {j : Job} {images after : PerSegment ByteArray} {event : Event}
    (h : relocate scene j.index j.input j.relocation images = .ok (after, event)) :
    j.Checked ∧ ∃ image addr, after = images.set j.segment image ∧
      patch (.relocation j.input.name j.relocation.label) j.relocation.kind (j.pc scene) addr
        (j.pc scene - scene.addr j.segment) (images.get j.segment) = .ok image := by
  simp only [relocate] at h
  split at h
  · cases h
  · split at h
    · cases h
    · rename_i hchecked
      split at h
      · cases h
      · rename_i image hpatch
        cases h
        exact ⟨hchecked, image, _, rfl, hpatch⟩

namespace Chain

variable {scene : Scene} {jobs : List Job} {images after : PerSegment ByteArray} {s : Segment}

theorem size_eq (h : Chain scene jobs images after) (s : Segment) :
    (after.get s).size = (images.get s).size := by
  induction h with
  | nil => rfl
  | @cons j rest images next after event head _ ih =>
      obtain ⟨-, image, addr, rfl, hpatch⟩ := relocate_patches head
      rw [ih, PerSegment.get_set]
      split
      · rename_i hs
        rw [hs]
        exact size_patch hpatch
      · rfl

/-- After all relocations a bit that has changed lies in the field of one of them. -/
theorem bits (h : Chain scene jobs images after) (hfits : ∀ j ∈ jobs, j.segment = s → j.Fits scene)
    (n : Nat) : Bytes.bitAt (after.get s) n = Bytes.bitAt (images.get s) n ∨
      ∃ j ∈ jobs, j.segment = s ∧ j.Checked ∧ j.Changes scene n := by
  induction h with
  | nil => exact .inl rfl
  | @cons j rest images next after event head _ ih =>
      obtain ⟨hchecked, image, addr, rfl, hpatch⟩ := relocate_patches head
      rcases ih fun k hk => hfits k (List.mem_cons_of_mem _ hk) with hkept | ⟨k, hk, hchanged⟩
      · rw [PerSegment.get_set] at hkept
        split at hkept
        · rename_i hs
          subst hs
          rcases patch_bits (hfits j List.mem_cons_self rfl hchecked) hpatch n with hsame | hfield
          · exact .inl (hkept.trans hsame)
          · exact .inr ⟨j, List.mem_cons_self, rfl, hchecked, hfield⟩
        · exact .inl hkept
      · exact .inr ⟨k, List.mem_cons_of_mem _ hk, hchanged⟩

end Chain

/-! ### Relocations in the layout -/

theorem toNat_wordsOf {kind : RelocationKind} {what : Patch} (h : kind.patch? = some what) :
    (wordsOf kind).toNat = what.words := by
  rw [wordsOf, h]
  cases what <;> rfl

/-- A relocation that passes its check lies in the section of its input, at its position from there. -/
theorem Job.Checked.within {inputs : List Input} {globals : List Global} {layouts : PerSegment Layout}
    {j : Job} (h : j.Checked) (hinput : inputs[j.index]? = some j.input)
    (hposition : j.relocation.position.toNat ≤ 2 ^ 64 - 17)
    (htiling : Tiling j.segment (segmentAddr inputs j.segment) (order inputs j.segment)
      (layouts.get j.segment))
    (hfits : (layouts.get j.segment).image.size < 2 ^ 64)
    {what : Patch} (hwhat : j.relocation.kind.patch? = some what) :
    j.relocation.position.toNat + 4 * what.words ≤ j.input.extent j.segment ∧
    j.offset (sceneOf inputs globals layouts) =
      (layouts.get j.segment).offsetOf (segmentAddr inputs j.segment) j.index +
        j.relocation.position.toNat := by
  have hinside := htiling.inside (j.index, j.input) (mem_order.2 hinput)
  have hsize : (Bytes.size64 (j.input.bytes j.segment)).toNat ≤ j.input.extent j.segment :=
    Section.size64_le_size _
  have hwords : what.words ≤ 4 := by cases what <;> decide
  have hstop : (j.relocation.position + 4 * wordsOf j.relocation.kind).toNat =
      j.relocation.position.toNat + 4 * what.words := by
    have hbytes : (4 * wordsOf j.relocation.kind).toNat = 4 * what.words := by
      have hfour : (4 : UInt64).toNat = 4 := rfl
      rw [UInt64.toNat_mul, toNat_wordsOf hwhat, hfour]
      omega
    rw [UInt64.toNat_add, hbytes]
    omega
  have hwithin : j.relocation.position.toNat + 4 * what.words ≤ j.input.extent j.segment := by
    rw [Job.Checked, UInt64.lt_iff_toNat_lt, hstop] at h
    omega
  have hsum : j.pc (sceneOf inputs globals layouts) - (sceneOf inputs globals layouts).addr j.segment =
      ((layouts.get j.segment).baseOf j.index - segmentAddr inputs j.segment) +
        j.relocation.position := by
    simp only [Job.pc, sceneOf]
    rw [UInt64.sub_eq_add_neg, UInt64.sub_eq_add_neg]
    ac_rfl
  refine ⟨hwithin, ?_⟩
  rw [Job.offset, hsum, UInt64.toNat_add]
  simp only [Layout.offsetOf] at hinside ⊢
  omega

/-! ### The executable -/

/-- A section of an executable is composed of a segment of the inputs. -/
structure Composed (inputs : List Input) (s : Segment) (layout : Layout) (out : Section) : Prop where
  /-- Every input has its section inside, at an aligned offset. -/
  aligned : ∀ i input, inputs[i]? = some input → s.align.toNat ∣ layout.offsetOf out.addr i
  inside : ∀ i input, inputs[i]? = some input →
    layout.offsetOf out.addr i + input.extent s ≤ out.data.size
  /-- Sections follow each other in the order of the inputs, and no two of them have a common byte. -/
  ordered : ∀ i a j b, inputs[i]? = some a → inputs[j]? = some b → Precedes s i a j b →
    layout.offsetOf out.addr i + a.extent s ≤ layout.offsetOf out.addr j
  apart : ∀ i a j b, inputs[i]? = some a → inputs[j]? = some b → i ≠ j →
    layout.offsetOf out.addr i + a.extent s ≤ layout.offsetOf out.addr j ∨
      layout.offsetOf out.addr j + b.extent s ≤ layout.offsetOf out.addr i
  /-- A byte in no word that a relocation changes is that of the input, or zero beyond its data. -/
  bytes : ∀ i input, inputs[i]? = some input → ∀ k < input.extent s,
    (∀ r ∈ input.file.relocations, r.kind.segment = s → ¬r.Covers k) →
    Bytes.byteAt out.data (layout.offsetOf out.addr i + k) = Bytes.byteAt (input.bytes s) k
  /-- A bit that differs from the input lies in the field of one of its relocations. -/
  bits : ∀ i input, inputs[i]? = some input → ∀ n < 8 * input.extent s,
    Bytes.bitAt out.data (8 * layout.offsetOf out.addr i + n) = Bytes.bitAt (input.bytes s) n ∨
      ∃ r ∈ input.file.relocations, r.kind.segment = s ∧ r.Changes n
  /-- A byte in no section is zero, and there is none if all sections end on the alignment. -/
  gaps : ∀ o, (∀ i input, inputs[i]? = some input →
      o < layout.offsetOf out.addr i ∨ layout.offsetOf out.addr i + input.extent s ≤ o) →
    Bytes.byteAt out.data o = 0
  tight : (∀ input ∈ inputs, s.align.toNat ∣ input.extent s) → ∀ o < out.data.size,
    ∃ i input, inputs[i]? = some input ∧ layout.offsetOf out.addr i ≤ o ∧
      o < layout.offsetOf out.addr i + input.extent s

/-- An image that sections tile, with the bits in the fields of relocations changed, is composed. -/
theorem composed_of_tiling {inputs : List Input} {s : Segment} {layout : Layout} {out : Section}
    (hstart : inputs.Pairwise fun a b => a.file.kernelStart = true → b.file.kernelStart = false)
    (htiling : Tiling s out.addr (order inputs s) layout) (hsize : out.data.size = layout.image.size)
    (hbits : ∀ n, Bytes.bitAt out.data n = Bytes.bitAt layout.image n ∨
      ∃ i input r m, inputs[i]? = some input ∧ r ∈ input.file.relocations ∧ r.kind.segment = s ∧
        r.Changes m ∧ m < 8 * input.extent s ∧ n = 8 * layout.offsetOf out.addr i + m) :
    Composed inputs s layout out := by
  have hordered : ∀ i a j b, inputs[i]? = some a → inputs[j]? = some b → Precedes s i a j b →
      layout.offsetOf out.addr i + a.extent s ≤ layout.offsetOf out.addr j :=
    fun i a j b ha hb => order_precedes htiling.ordered hstart ha hb
  have hapart : ∀ i a j b, inputs[i]? = some a → inputs[j]? = some b → i ≠ j →
      layout.offsetOf out.addr i + a.extent s ≤ layout.offsetOf out.addr j ∨
        layout.offsetOf out.addr j + b.extent s ≤ layout.offsetOf out.addr i := by
    intro i a j b ha hb hne
    rcases precedes_or s a b hne with hbefore | hafter
    · exact .inl (hordered i a j b ha hb hbefore)
    · exact .inr (hordered j b i a hb ha hafter)
  have hfields : ∀ i input, inputs[i]? = some input → ∀ n < 8 * input.extent s,
      Bytes.bitAt out.data (8 * layout.offsetOf out.addr i + n) = Bytes.bitAt (input.bytes s) n ∨
        ∃ r ∈ input.file.relocations, r.kind.segment = s ∧ r.Changes n := by
    intro i input hinput n hn
    rcases hbits (8 * layout.offsetOf out.addr i + n) with hsame | hchanged
    · left
      have hin : n / 8 < input.extent s := by omega
      have hbyte : Bytes.byteAt layout.image (layout.offsetOf out.addr i + n / 8) =
          Bytes.byteAt (input.bytes s) (n / 8) := htiling.bytes (i, input) (mem_order.2 hinput) _ hin
      have hbit := Bytes.bitAt_of_byteAt hbyte (Nat.mod_lt n (by norm_num))
      have hfrom : 8 * (layout.offsetOf out.addr i + n / 8) + n % 8 =
          8 * layout.offsetOf out.addr i + n := by omega
      rw [hfrom, Nat.div_add_mod] at hbit
      exact hsame.trans hbit
    · right
      obtain ⟨j, other, r, m, hother, hr, hsegment, hchanges, hm, hplace⟩ := hchanged
      -- the bit lies in one section only
      obtain rfl : i = j := by
        by_contra hne
        have hranges := hapart i input j other hinput hother hne
        omega
      obtain rfl : input = other := Option.some.inj (hinput.symm.trans hother)
      obtain rfl : n = m := by omega
      exact ⟨r, hr, hsegment, hchanges⟩
  refine ⟨?_, ?_, hordered, hapart, ?_, hfields, ?_, ?_⟩
  · intro i input hinput
    exact htiling.aligned (i, input) (mem_order.2 hinput)
  · intro i input hinput
    rw [hsize]
    exact htiling.inside (i, input) (mem_order.2 hinput)
  · intro i input hinput k hk hfree
    refine Bytes.byteAt_eq_of_bits fun b hb => ?_
    rcases hfields i input hinput (8 * k + b) (by omega) with hsame | ⟨r, hr, hsegment, hchanges⟩
    · rw [← hsame]
      congr 1
      omega
    · have hcovers := hchanges.covers
      rw [(by omega : (8 * k + b) / 8 = k)] at hcovers
      exact absurd hcovers (hfree r hr hsegment)
  · intro o ho
    have hgap : Bytes.byteAt layout.image o = 0 := by
      refine htiling.gaps o fun p hp => ?_
      exact ho p.1 p.2 (mem_order.1 hp)
    rw [← hgap]
    refine Bytes.byteAt_eq_of_bits fun b hb => ?_
    rcases hbits (8 * o + b) with hsame | ⟨i, input, r, m, hinput, -, -, -, hm, hplace⟩
    · exact hsame
    · have hrange := ho i input hinput
      omega
  · intro hall o ho
    rw [hsize] at ho
    have hextents : ∀ p ∈ order inputs s, s.align.toNat ∣ p.2.extent s :=
      fun p hp => hall p.2 (List.mem_of_getElem? (mem_order.1 hp))
    obtain ⟨p, hp, hrange⟩ := (htiling.tight hextents).2 o ho
    exact ⟨p.1, p.2, mem_order.1 hp, hrange⟩

/-- At most one of the objects that are linked starts the kernel's code. -/
theorem combine_kernelStart {inputs : List Input} {exe : ObjectFile} {log : List Event}
    (h : combine inputs = .ok (exe, log)) :
    inputs.Pairwise fun a b => a.file.kernelStart = true → b.file.kernelStart = false := by
  obtain ⟨-, -, -, -, -, index, -, -, -, -, hentry, -⟩ := combine_steps h
  exact (entryFrom_kernelStart hentry).2

/-- The sections of an executable are composed of the inputs, as far as they keep off the end of the
    address space. -/
theorem combine_composed {inputs : List Input} {exe : ObjectFile} {log : List Event}
    (h : combine inputs = .ok (exe, log))
    (hpositions : ∀ input ∈ inputs, ∀ r ∈ input.file.relocations, r.position.toNat ≤ 2 ^ 64 - 17) :
    ∃ layouts placed, layOutAll inputs = .ok (layouts, placed) ∧
      ∀ s, (exe.sections.get s).data.size + s.align.toNat ≤ 2 ^ 64 →
        Composed inputs s (layouts.get s) (exe.sections.get s) := by
  obtain ⟨globals, layouts, placed, images, patched, -, hlaid, hrelocated, hexe⟩ := combine_eq_ok h
  have hchain := relocateInputs_chain hrelocated
  refine ⟨layouts, placed, hlaid, fun s hfits => ?_⟩
  have hsize := hchain.size_eq s
  rw [PerSegment.get_ofFn] at hsize
  simp only [hexe s, hsize] at hfits
  obtain ⟨before, after, hout⟩ := layOutAll_eq_ok hlaid s
  have htiling : Tiling s (segmentAddr inputs s) ([] ++ order inputs s) (layouts.get s) :=
    layOut_tiling (Tiling.nil s _) (nodup_order inputs s) hfits hout
  rw [List.nil_append] at htiling
  have halign : 0 < s.align.toNat := by cases s <;> decide
  -- a relocation that is applied lies in the section of its input
  have hwithin : ∀ j ∈ jobsFrom 0 inputs, j.segment = s → j.Checked →
      ∀ what, j.relocation.kind.patch? = some what → inputs[j.index]? = some j.input ∧
        j.relocation ∈ j.input.file.relocations ∧
        j.relocation.position.toNat + 4 * what.words ≤ j.input.extent s ∧
        j.offset (sceneOf inputs globals layouts) =
          (layouts.get s).offsetOf (segmentAddr inputs s) j.index + j.relocation.position.toNat := by
    rintro j hj rfl hchecked what hwhat
    obtain ⟨n, hindex, hinput, hr⟩ := mem_jobsFrom.1 hj
    rw [Nat.zero_add] at hindex
    subst hindex
    have hposition := hpositions j.input (List.mem_of_getElem? hinput) j.relocation hr
    exact ⟨hinput, hr, hchecked.within hinput hposition htiling (by omega) hwhat⟩
  have hjobs : ∀ j ∈ jobsFrom 0 inputs, j.segment = s → j.Fits (sceneOf inputs globals layouts) := by
    intro j hj hs hchecked what hwhat
    obtain ⟨hinput, -, hinside, hoffset⟩ := hwithin j hj hs hchecked what hwhat
    have hsection := htiling.inside (j.index, j.input) (mem_order.2 hinput)
    simp only at hsection
    omega
  rw [hexe s]
  refine composed_of_tiling (combine_kernelStart h) htiling hsize fun n => ?_
  rcases hchain.bits hjobs n with hsame | ⟨j, hj, hs, hchecked, what, hwhat, i, hi, hfirst, hlast⟩
  · left
    rwa [PerSegment.get_ofFn] at hsame
  · right
    obtain ⟨hinput, hr, hinside, hoffset⟩ := hwithin j hj hs hchecked what hwhat
    rw [hoffset] at hfirst hlast
    obtain ⟨m, rfl⟩ : ∃ m, n = 8 * (layouts.get s).offsetOf (segmentAddr inputs s) j.index + m :=
      Nat.exists_eq_add_of_le (by omega)
    exact ⟨j.index, j.input, j.relocation, m, hinput, hr, hs, ⟨what, hwhat, i, hi, by omega, by omega⟩,
      by omega, rfl⟩

/-- The linked image is the inputs plus patched immediates. In each segment of the executable, unless it
    ends near the end of the address space, the inputs have their sections in order, aligned, apart from
    each other and inside; every byte is that of its input, zero beyond the input's data, or zero in
    between; and the words that relocations change differ from the input in the fields of these
    relocations only. -/
theorem link_composed (inputs : List Input) (exe : ObjectFile) (hlink : (link ⟨inputs⟩).1 = .ok exe)
    (hpositions : ∀ input ∈ inputs, ∀ r ∈ input.file.relocations, r.position.toNat ≤ 2 ^ 64 - 17) :
    ∃ layouts placed, layOutAll inputs = .ok (layouts, placed) ∧
      ∀ s, (exe.sections.get s).addr.toNat + (exe.sections.get s).data.size < 2 ^ 64 - 64 →
        Composed inputs s (layouts.get s) (exe.sections.get s) := by
  obtain ⟨log, hcombine⟩ := combine_of_link hlink
  obtain ⟨layouts, placed, hlaid, hcomposed⟩ := combine_composed hcombine hpositions
  refine ⟨layouts, placed, hlaid, fun s hend => hcomposed s ?_⟩
  have halign : s.align.toNat ≤ 32 := by cases s <;> decide
  omega

/-- A branch of kernel code to the start of the kernel, and after it the object that starts there and
    takes two bytes more than it has. -/
def laterStart : List Input :=
  [⟨[ascii 'a'], { ObjectFile.empty .relocatable with
      sections := { (ObjectFile.empty .relocatable).sections with
        ktext := { addr := Segment.ktextBase, data := Bytes.ofList [0x20, 0, 0, 0] } }
      relocations := [⟨0, [ascii 'k'], ⟨4⟩, .global⟩] }⟩,
    ⟨[ascii 'b'], { ObjectFile.empty .relocatable with
      entry := Segment.ktextBase
      kernelStart := true
      sections := { (ObjectFile.empty .relocatable).sections with
        ktext := { addr := Segment.ktextBase, data := Bytes.ofList [0x06, 0, 0, 0], memSize := 6 } }
      symbols := [⟨[ascii 'k'], ⟨3⟩, .global, 0⟩] }⟩]

theorem link_composed_laterStart :
    (∀ input ∈ laterStart, ∀ r ∈ input.file.relocations, r.position.toNat ≤ 2 ^ 64 - 17) ∧
    ∃ exe layouts placed, (link ⟨laterStart⟩).1 = .ok exe ∧
      layOutAll laterStart = .ok (layouts, placed) ∧
      (exe.sections.get .ktext).addr.toNat + (exe.sections.get .ktext).data.size < 2 ^ 64 - 64 ∧
      (layouts.get .ktext).offsetOf (exe.sections.get .ktext).addr 1 + 6 ≤
        (layouts.get .ktext).offsetOf (exe.sections.get .ktext).addr 0 := by
  have hpositions : ∀ input ∈ laterStart, ∀ r ∈ input.file.relocations,
      r.position.toNat ≤ 2 ^ 64 - 17 := by decide
  have hend : (link ⟨laterStart⟩).1.toOption.map (fun exe =>
      ((exe.sections.get .ktext).addr, (exe.sections.get .ktext).data.size)) =
      some (Segment.ktextBase, 12) := by
    decide +kernel
  refine ⟨hpositions, ?_⟩
  cases hlink : (link ⟨laterStart⟩).1 with
  | error e =>
      rw [hlink] at hend
      cases hend
  | ok exe =>
      rw [hlink] at hend
      obtain ⟨haddr, hsize⟩ := Prod.mk.inj (Option.some.inj hend)
      have hbelow : (exe.sections.get .ktext).addr.toNat + (exe.sections.get .ktext).data.size <
          2 ^ 64 - 64 := by
        rw [haddr, hsize]
        decide
      obtain ⟨layouts, placed, hlaid, hcomposed⟩ := link_composed laterStart exe hlink hpositions
      refine ⟨exe, layouts, placed, rfl, hlaid, hbelow, ?_⟩
      exact (hcomposed .ktext hbelow).ordered 1 _ 0 _ rfl rfl (.inl ⟨rfl, rfl, by decide⟩)

end Linker

end VectorRisc
