/-
Module: VectorRisc.Proofs.Object.Patches
Layer: Proofs
Purpose: What relocations do to the images of code. Each one changes the words it stands on, as its patch
  says, and no others; so after all of them every one has changed the words of the layout.
Imports: Mathlib.Tactic, VectorRisc.Proofs.Object.Layout, VectorRisc.Proofs.Object.Linking
Trusted boundary: none
Main exports: Patch.Reaches, Patch.apply, Linker.Job, Linker.Chain, Linker.Chain.words_eq
Open obligations: none
-/
import Mathlib.Tactic
import VectorRisc.Proofs.Object.Layout
import VectorRisc.Proofs.Object.Linking

namespace VectorRisc

namespace Patch

/-- The target lies where the instruction at `pc` can refer to it: within the reach of a branch and in
    the region of a jump, on a word; a slice or an address refers to any. -/
def Reaches (patch : Patch) (pc addr : UInt64) : Prop :=
  match patch with
  | .branch =>
      let delta := (addr - (pc + 4)).toInt64
      delta % 4 = 0 ∧ -16384 ≤ delta / 4 ∧ delta / 4 < 16384
  | .jump => addr &&& 3 = 0 ∧ Linker.region pc = Linker.region addr
  | .slice => True
  | .address => True

/-- The words of an instruction at `pc` once they refer to `addr`. -/
def apply (patch : Patch) (pc addr : UInt64) (words : List Word) : List Word :=
  match patch with
  | .branch =>
      words.map fun w => w.setImmI (((addr - (pc + 4)).toInt64 / 4).toUInt64.toUInt16 &&& 0x7fff)
  | .jump => words.map fun w => w.setAddrJ (addr >>> 2).toUInt32
  | .slice => words.map fun w => w.setImmEI (sliceOf addr (w.funcEI.toNat % 4))
  | .address => words.zipWith (fun w n => w.setImmEI (sliceOf addr n)) [0, 1, 2, 3]

end Patch

namespace Linker

/-! ### One patch -/

/-- An image is rewritten at some words only. -/
structure Rewritten (offset count : Nat) (image after : ByteArray) : Prop where
  size : after.size = image.size
  outside : ∀ o n, o + 4 * n ≤ offset ∨ offset + 4 * count ≤ o →
    Bytes.wordsAt after o n = Bytes.wordsAt image o n

theorem Rewritten.refl (offset count : Nat) (image : ByteArray) : Rewritten offset count image image :=
  ⟨rfl, fun _ _ _ => rfl⟩

theorem Rewritten.trans {offset count : Nat} {image next after : ByteArray}
    (h : Rewritten offset count image next) (h' : Rewritten offset count next after) :
    Rewritten offset count image after :=
  ⟨h'.size.trans h.size, fun o n ho => (h'.outside o n ho).trans (h.outside o n ho)⟩

/-- One word of a stretch is rewritten. -/
theorem Rewritten.widen {offset count start : Nat} {image after : ByteArray}
    (h : Rewritten start 1 image after) (hfirst : offset ≤ start)
    (hlast : start + 4 ≤ offset + 4 * count) : Rewritten offset count image after :=
  ⟨h.size, fun o n ho => h.outside o n (by omega)⟩

/-- A word that is changed is inside; the others stay. -/
theorem mapWord_eq_ok {image after : ByteArray} {offset : UInt64} {f : Word → Word}
    (h : mapWord image offset f = .ok after) :
    Rewritten offset.toNat 1 image after ∧
      Bytes.wordAt after offset.toNat = f (Bytes.wordAt image offset.toNat) := by
  rw [mapWord] at h
  split at h
  · rename_i w hw
    cases h
    rw [wordAt?] at hw
    split at hw
    · rename_i hinside
      cases hw
      refine ⟨⟨Bytes.size_overlay _ _ _, fun o n ho => ?_⟩, Bytes.wordAt_overlay_self _ hinside⟩
      refine Bytes.wordsAt_overlay_of_outside ?_
      rwa [Bytes.length_ofNat]
    · cases hw
  · cases h

/-- The single word of a patch is changed. -/
theorem mapWord_words {image after : ByteArray} {offset : UInt64} {f : Word → Word}
    (h : mapWord image offset f = .ok after) :
    Rewritten offset.toNat 1 image after ∧
      Bytes.wordsAt after offset.toNat 1 = (Bytes.wordsAt image offset.toNat 1).map f := by
  obtain ⟨hrewritten, hword⟩ := mapWord_eq_ok h
  exact ⟨hrewritten, by simp [Bytes.wordsAt, hword]⟩

/-- The words of an address are changed one after the other. -/
theorem patchSlices_eq_ok {addr offset : UInt64} {k n : Nat} {image after : ByteArray}
    (hsize : offset.toNat + 4 * (k + n) < 2 ^ 64)
    (h : patchSlices addr offset (List.range' k n) image = .ok after) :
    Rewritten (offset.toNat + 4 * k) n image after ∧
      Bytes.wordsAt after (offset.toNat + 4 * k) n =
        (Bytes.wordsAt image (offset.toNat + 4 * k) n).zipWith
          (fun w n => Word.setImmEI w (sliceOf addr n)) (List.range' k n) := by
  induction n generalizing k image with
  | zero =>
      cases h
      exact ⟨Rewritten.refl _ _ _, rfl⟩
  | succ n ih =>
      rw [List.range'_succ, patchSlices] at h
      split at h
      · cases h
      · rename_i next hnext
        obtain ⟨hfirst, hword⟩ := mapWord_eq_ok hnext
        obtain ⟨hrest, hwords⟩ := ih (by omega) h
        have hspot : (offset + UInt64.ofNat (4 * k)).toNat = offset.toNat + 4 * k := by
          rw [UInt64.toNat_add, UInt64.toNat_ofNat']
          omega
        rw [hspot] at hfirst hword
        have hnextSpot : offset.toNat + 4 * (k + 1) = offset.toNat + 4 * k + 4 := by omega
        rw [hnextSpot] at hrest hwords
        refine ⟨?_, ?_⟩
        · refine (hfirst.widen (le_refl _) (by omega)).trans ?_
          exact ⟨hrest.size, fun o m ho => hrest.outside o m (by omega)⟩
        · have hhead : Bytes.wordsAt after (offset.toNat + 4 * k) 1 =
              Bytes.wordsAt next (offset.toNat + 4 * k) 1 := hrest.outside _ _ (by omega)
          have hkept : Bytes.wordAt after (offset.toNat + 4 * k) =
              Bytes.wordAt next (offset.toNat + 4 * k) := by
            simpa [Bytes.wordsAt] using hhead
          have htail := hfirst.outside (offset.toNat + 4 * k + 4) n (by omega)
          rw [Bytes.wordsAt, Bytes.wordsAt, List.range'_succ, List.zipWith_cons_cons, hkept, hword,
            hwords, htail]

/-- A patch that succeeds reaches its target, and changes its words as it says and no others. -/
theorem patch_eq_ok {fail : Cause → Error} {kind : RelocationKind} {what : Patch}
    (hkind : kind.patch? = some what) {pc addr offset : UInt64} {image after : ByteArray}
    (hsize : offset.toNat + 4 * what.words < 2 ^ 64)
    (h : patch fail kind pc addr offset image = .ok after) :
    what.Reaches pc addr ∧ Rewritten offset.toNat what.words image after ∧
      Bytes.wordsAt after offset.toNat what.words =
        what.apply pc addr (Bytes.wordsAt image offset.toNat what.words) := by
  simp only [patch, hkind] at h
  cases what with
  | branch =>
      simp only at h
      split at h
      · cases h
      · rename_i haligned
        split at h
        · cases h
        · rename_i hrange
          simp only [Bool.or_eq_true, decide_eq_true_eq, not_or, Int64.not_lt, Int64.not_le] at hrange
          obtain ⟨hrewritten, hwords⟩ := mapWord_words h
          refine ⟨?_, hrewritten, hwords⟩
          exact ⟨not_not.1 haligned, hrange⟩
  | jump =>
      simp only at h
      split at h
      · cases h
      · rename_i haligned
        split at h
        · cases h
        · rename_i hregion
          obtain ⟨hrewritten, hwords⟩ := mapWord_words h
          exact ⟨⟨not_not.1 haligned, not_not.1 hregion⟩, hrewritten, hwords⟩
  | slice =>
      obtain ⟨hrewritten, hwords⟩ := mapWord_words h
      exact ⟨trivial, hrewritten, hwords⟩
  | address =>
      obtain ⟨hrewritten, hwords⟩ := patchSlices_eq_ok (k := 0) (n := 4) hsize h
      exact ⟨trivial, hrewritten, hwords⟩

/-! ### Relocations one after the other -/

/-- A relocation to apply, of the input at a place. -/
structure Job where
  index : Nat
  input : Input
  relocation : Relocation

namespace Job

/-- The segment that the relocation changes. -/
def segment (j : Job) : Segment := j.relocation.kind.segment

/-- The address of the instruction. -/
def pc (scene : Scene) (j : Job) : UInt64 := scene.base j.segment j.index + j.relocation.position

/-- Where the instruction is in the image of its segment. -/
def offset (scene : Scene) (j : Job) : Nat := (j.pc scene - scene.addr j.segment).toNat

/-- The number of words the relocation changes. -/
def words (j : Job) : Nat := (wordsOf j.relocation.kind).toNat

/-- Two relocations change no common word. -/
def Apart (scene : Scene) (j k : Job) : Prop :=
  j.segment = k.segment → j.offset scene + 4 * j.words ≤ k.offset scene ∨
    k.offset scene + 4 * k.words ≤ j.offset scene

theorem Apart.symm {scene : Scene} {j k : Job} (h : j.Apart scene k) : k.Apart scene j :=
  fun hsegment => (h hsegment.symm).symm

/-- The relocation patches something, in an image within the address space. -/
structure Sound (scene : Scene) (j : Job) (what : Patch) : Prop where
  patch : j.relocation.kind.patch? = some what
  words : j.words = what.words
  fits : j.offset scene + 4 * what.words < 2 ^ 64

end Job

/-- A relocation that is applied. -/
theorem relocate_eq_ok {scene : Scene} {j : Job} {what : Patch} (hj : j.Sound scene what)
    {images after : PerSegment ByteArray} {event : Event}
    (h : relocate scene j.index j.input j.relocation images = .ok (after, event)) :
    (∀ s, s ≠ j.segment → after.get s = images.get s) ∧
    Rewritten (j.offset scene) j.words (images.get j.segment) (after.get j.segment) ∧
    ∃ addr, target? scene j.index j.input.file j.relocation = some addr ∧
      what.Reaches (j.pc scene) addr ∧
      Bytes.wordsAt (after.get j.segment) (j.offset scene) what.words =
        what.apply (j.pc scene) addr
          (Bytes.wordsAt (images.get j.segment) (j.offset scene) what.words) := by
  simp only [relocate] at h
  split at h
  · cases h
  · rename_i addr htarget
    split at h
    · cases h
    · split at h
      · cases h
      · rename_i image hpatch
        cases h
        obtain ⟨hreaches, hrewritten, hwords⟩ := patch_eq_ok hj.patch hj.fits hpatch
        refine ⟨?_, ?_, addr, htarget, hreaches, ?_⟩
        · intro s hs
          have hother : s ≠ j.relocation.kind.segment := hs
          rw [PerSegment.get_set, if_neg hother]
        · rw [PerSegment.get_set, Job.segment, if_pos rfl, hj.words]
          exact hrewritten
        · rw [PerSegment.get_set, Job.segment, if_pos rfl]
          exact hwords

/-- Relocations applied one after the other. -/
inductive Chain (scene : Scene) : List Job → PerSegment ByteArray → PerSegment ByteArray → Prop where
  | nil (images : PerSegment ByteArray) : Chain scene [] images images
  | cons {j : Job} {rest : List Job} {images next after : PerSegment ByteArray} {event : Event}
      (head : relocate scene j.index j.input j.relocation images = .ok (next, event))
      (tail : Chain scene rest next after) : Chain scene (j :: rest) images after

theorem Chain.append {scene : Scene} {jobs more : List Job} {images next after : PerSegment ByteArray}
    (h : Chain scene jobs images next) (h' : Chain scene more next after) :
    Chain scene (jobs ++ more) images after := by
  induction h with
  | nil => exact h'
  | cons head _ ih => exact .cons head (ih h')

/-- The relocations of the inputs from a place on, in order. -/
def jobsFrom : (index : Nat) → List Input → List Job
  | _, [] => []
  | index, input :: rest =>
    input.file.relocations.map (fun r => ⟨index, input, r⟩) ++ jobsFrom (index + 1) rest

theorem relocateAll_chain {scene : Scene} {index : Nat} {input : Input} {relocations : List Relocation}
    {images after : PerSegment ByteArray} {log log' : List Event}
    (h : relocateAll scene index input relocations images log = .ok (after, log')) :
    Chain scene (relocations.map fun r => ⟨index, input, r⟩) images after := by
  induction relocations generalizing images log with
  | nil =>
      cases h
      exact .nil _
  | cons r rest ih =>
      rw [relocateAll] at h
      split at h
      · cases h
      · rename_i next event hnext
        exact .cons (j := ⟨index, input, r⟩) hnext (ih h)

theorem relocateInputs_chain {scene : Scene} {index : Nat} {inputs : List Input}
    {images after : PerSegment ByteArray} {log log' : List Event}
    (h : relocateInputs scene index inputs images log = .ok (after, log')) :
    Chain scene (jobsFrom index inputs) images after := by
  induction inputs generalizing index images log with
  | nil =>
      cases h
      exact .nil _
  | cons input rest ih =>
      rw [relocateInputs] at h
      split at h
      · cases h
      · rename_i next log1 hnext
        exact (relocateAll_chain hnext).append (ih h)

namespace Chain

variable {scene : Scene} {jobs : List Job} {images after : PerSegment ByteArray}

/-- Words that no relocation stands on stay, and so do the sizes of the images. -/
theorem frame (h : Chain scene jobs images after) (hsound : ∀ j ∈ jobs, ∃ what, j.Sound scene what)
    (s : Segment) : (after.get s).size = (images.get s).size ∧
      ∀ o n, (∀ j ∈ jobs, j.segment = s →
        o + 4 * n ≤ j.offset scene ∨ j.offset scene + 4 * j.words ≤ o) →
        Bytes.wordsAt (after.get s) o n = Bytes.wordsAt (images.get s) o n := by
  induction h with
  | nil => exact ⟨rfl, fun _ _ _ => rfl⟩
  | @cons j rest images next after event head _ ih =>
      obtain ⟨what, hj⟩ := hsound j List.mem_cons_self
      obtain ⟨hothers, hrewritten, -⟩ := relocate_eq_ok hj head
      obtain ⟨hsize, hwords⟩ := ih fun k hk => hsound k (List.mem_cons_of_mem _ hk)
      by_cases hs : s = j.segment
      · subst hs
        refine ⟨hsize.trans hrewritten.size, fun o n ho => ?_⟩
        rw [hwords o n fun k hk => ho k (List.mem_cons_of_mem _ hk)]
        exact hrewritten.outside o n (ho j List.mem_cons_self rfl)
      · rw [hothers s hs] at hsize hwords
        exact ⟨hsize, fun o n ho => hwords o n fun k hk => ho k (List.mem_cons_of_mem _ hk)⟩

/-- After all relocations each one has changed the words that the images had at first. -/
theorem words_eq (h : Chain scene jobs images after)
    (hsound : ∀ j ∈ jobs, ∃ what, j.Sound scene what) (hapart : jobs.Pairwise (Job.Apart scene))
    {j : Job} (hmem : j ∈ jobs) {what : Patch} (hj : j.Sound scene what) :
    ∃ addr, target? scene j.index j.input.file j.relocation = some addr ∧
      what.Reaches (j.pc scene) addr ∧
      Bytes.wordsAt (after.get j.segment) (j.offset scene) what.words =
        what.apply (j.pc scene) addr
          (Bytes.wordsAt (images.get j.segment) (j.offset scene) what.words) := by
  induction h with
  | nil => cases hmem
  | @cons k rest images next after event head tail ih =>
      obtain ⟨hfirst, hrest⟩ := List.pairwise_cons.1 hapart
      have hrestSound := fun i hi => hsound i (List.mem_cons_of_mem _ hi)
      rcases List.mem_cons.1 hmem with rfl | hmem
      · -- the later relocations leave the words of this one
        obtain ⟨-, -, addr, htarget, hreaches, hwords⟩ := relocate_eq_ok hj head
        refine ⟨addr, htarget, hreaches, ?_⟩
        rw [← hwords]
        refine (tail.frame hrestSound j.segment).2 _ _ fun i hi hsegment => ?_
        rw [← hj.words]
        exact hfirst i hi hsegment.symm
      · -- this relocation leaves the words of the later one
        obtain ⟨addr, htarget, hreaches, hwords⟩ := ih hrestSound hrest hmem
        refine ⟨addr, htarget, hreaches, ?_⟩
        have hkept : Bytes.wordsAt (next.get j.segment) (j.offset scene) what.words =
            Bytes.wordsAt (images.get j.segment) (j.offset scene) what.words := by
          obtain ⟨whatFirst, hk⟩ := hsound k List.mem_cons_self
          obtain ⟨hothers, hrewritten, -⟩ := relocate_eq_ok hk head
          by_cases hs : j.segment = k.segment
          · rw [hs]
            refine hrewritten.outside _ _ ?_
            rw [← hj.words]
            exact (hfirst j hmem).symm hs
          · rw [hothers _ hs]
        rwa [hkept] at hwords

end Chain

end Linker

end VectorRisc
