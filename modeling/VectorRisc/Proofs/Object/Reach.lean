/-
Module: VectorRisc.Proofs.Object.Reach
Layer: Proofs
Purpose: When a relocation can be applied. A branch and a jump have a reach, said of the addresses alone;
  a relocation that lies in the bytes of its input has room in the image, so that it fails only for its
  label or its reach, and relocations succeed one after the other if each of them can be applied.
Imports: Mathlib.Tactic, VectorRisc.Proofs.Object.Image
Trusted boundary: none
Main exports: Patch.InReach, Patch.reaches_iff, Linker.Room, Linker.patch_cases, Linker.relocate_cases,
  Linker.exists_chain_iff, Linker.data_inside, Linker.Job.room
Open obligations: none
-/
import Mathlib.Tactic
import VectorRisc.Proofs.Object.Image

namespace VectorRisc

namespace Patch

/-! ### Reach -/

/-- The instruction at `pc` can refer to the address: a branch goes up to 16384 words back and 16383 words
    on from the next instruction, around the end of the address space if need be, and a jump to any word
    of its own region of 2^27 bytes. -/
def InReach (patch : Patch) (pc addr : UInt64) : Prop :=
  match patch with
  | .branch => ∃ count : Int, -16384 ≤ count ∧ count ≤ 16383 ∧
      ((pc.toNat : Int) + 4 + 4 * count) % 2 ^ 64 = addr.toNat
  | .jump => 4 ∣ addr.toNat ∧ addr.toNat / 2 ^ 27 = pc.toNat / 2 ^ 27
  | .slice => True
  | .address => True

/-- A distance is a number of words within the reach of a branch. -/
theorem wordsIn_iff (delta : Int64) :
    (delta % 4 = 0 ∧ -16384 ≤ delta / 4 ∧ delta / 4 < 16384) ↔
      ∃ count : Int, -16384 ≤ count ∧ count ≤ 16383 ∧ delta.toInt = 4 * count := by
  have hfour : Int64.toInt 4 = 4 := rfl
  have hlow := delta.le_toInt
  have hhigh := delta.toInt_lt
  have hsum := Int.mul_tdiv_add_tmod delta.toInt 4
  have hleast := Int.lt_tmod_of_pos delta.toInt (by norm_num : (0 : Int) < 4)
  have hmost := Int.tmod_lt_of_pos delta.toInt (by norm_num : (0 : Int) < 4)
  have hquot : (delta / 4).toInt = delta.toInt.tdiv 4 := by
    rw [Int64.toInt_div, hfour]
    apply Int.bmod_eq_of_le <;> omega
  have hrem : delta % 4 = 0 ↔ delta.toInt.tmod 4 = 0 := by
    rw [← Int64.toInt_inj, Int64.toInt_mod, hfour, Int64.toInt_zero]
  have hback : Int64.toInt (-16384) = -16384 := rfl
  have hforth : Int64.toInt 16384 = 16384 := rfl
  rw [hrem, Int64.le_iff_toInt_le, Int64.lt_iff_toInt_lt, hquot, hback, hforth]
  constructor
  · rintro ⟨hzero, hfrom, hto⟩
    exact ⟨delta.toInt.tdiv 4, hfrom, by omega, by omega⟩
  · rintro ⟨count, hfrom, hto, hcount⟩
    refine ⟨?_, ?_, ?_⟩ <;> omega

/-- A patch reaches its target, as the linker computes it, if the target is in reach. -/
theorem reaches_iff (patch : Patch) (pc addr : UInt64) :
    patch.Reaches pc addr ↔ patch.InReach pc addr := by
  cases patch with
  | branch =>
      have hnat := toNat_toUInt64 (addr - (pc + 4)).toInt64
      have hlow := (addr - (pc + 4)).toInt64.le_toInt
      have hhigh := (addr - (pc + 4)).toInt64.toInt_lt
      have haddr := addr.toNat_lt
      have hfour : (4 : UInt64).toNat = 4 := rfl
      rw [UInt64.toUInt64_toInt64, UInt64.toNat_sub, UInt64.toNat_add, hfour] at hnat
      simp only [Reaches, InReach, wordsIn_iff]
      refine exists_congr fun count => and_congr_right fun hfrom => and_congr_right fun hto => ?_
      omega
  | jump =>
      have hmask : (3 : UInt64).toNat = 2 ^ 2 - 1 := rfl
      have hregion (v : UInt64) : (Linker.region v).toNat = v.toNat / 2 ^ 27 * 2 ^ 25 := by
        have hshift : (v >>> 2).toNat = v.toNat / 2 ^ 2 := by
          rw [UInt64.toNat_shiftRight, Nat.shiftRight_eq_div_pow]
          rfl
        rw [Linker.region, Bytes.toNat_and_not_mask (k := 25) _ rfl, hshift]
        omega
      simp only [Reaches, InReach, ← UInt64.toNat_inj, hregion, UInt64.toNat_and, hmask,
        Nat.and_two_pow_sub_one_eq_mod, UInt64.toNat_zero]
      omega
  | slice => exact Iff.rfl
  | address => exact Iff.rfl

end Patch

namespace Linker

/-! ### One relocation -/

/-- The words that a relocation of a kind changes at an offset lie in the image. -/
def Room (kind : RelocationKind) (offset : UInt64) (image : ByteArray) : Prop :=
  ∀ n < (wordsOf kind).toNat, (offset + UInt64.ofNat (4 * n)).toNat + 4 ≤ image.size

/-- A word that lies in the image can be changed. -/
theorem mapWord_of_inside {image : ByteArray} {offset : UInt64} (h : offset.toNat + 4 ≤ image.size)
    (f : Word → Word) : ∃ after, mapWord image offset f = .ok after := by
  rw [mapWord, wordAt?, if_pos h]
  exact ⟨_, rfl⟩

/-- Slices whose words lie in the image can be changed one after the other. -/
theorem patchSlices_of_inside {addr offset : UInt64} {slices : List Nat} {image : ByteArray}
    (h : ∀ n ∈ slices, (offset + UInt64.ofNat (4 * n)).toNat + 4 ≤ image.size) :
    ∃ after, patchSlices addr offset slices image = .ok after := by
  induction slices generalizing image with
  | nil => exact ⟨image, rfl⟩
  | cons n rest ih =>
      obtain ⟨next, hnext⟩ := mapWord_of_inside (h n List.mem_cons_self)
        fun w => w.setImmEI (sliceOf addr n)
      have hsize := (mapWord_eq_ok hnext).1.size
      rw [patchSlices, hnext]
      refine ih fun k hk => ?_
      rw [hsize]
      exact h k (List.mem_cons_of_mem _ hk)

/-- A patch whose words lie in the image is applied if it reaches its target, and else fails for a cause. -/
theorem patch_cases (fail : Cause → Error) {kind : RelocationKind} {offset : UInt64} {image : ByteArray}
    (hroom : Room kind offset image) (pc addr : UInt64) :
    ((∀ what, kind.patch? = some what → what.Reaches pc addr) ∧
      ∃ after, patch fail kind pc addr offset image = .ok after) ∨
    ((∃ what, kind.patch? = some what ∧ ¬what.Reaches pc addr) ∧
      ∃ cause, patch fail kind pc addr offset image = .error (fail cause)) := by
  have hword : offset.toNat + 4 ≤ image.size := by
    have hwords : 0 < (wordsOf kind).toNat := by
      rw [wordsOf]
      split <;> decide
    simpa using hroom 0 hwords
  simp only [patch]
  cases hkind : kind.patch? with
  | none => exact .inl ⟨by simp, image, rfl⟩
  | some what =>
      simp only [Option.some.injEq, forall_eq', exists_eq_left']
      cases what with
      | branch =>
          simp only [Patch.Reaches]
          split
          · rename_i haligned
            exact .inr ⟨fun h => haligned h.1, _, rfl⟩
          · rename_i haligned
            split
            · rename_i hrange
              simp only [Bool.or_eq_true, decide_eq_true_eq] at hrange
              refine .inr ⟨fun h => ?_, _, rfl⟩
              rcases hrange with hlow | hhigh
              · exact Int64.not_lt.2 h.2.1 hlow
              · exact Int64.not_lt.2 hhigh h.2.2
            · rename_i hrange
              simp only [Bool.or_eq_true, decide_eq_true_eq, not_or, Int64.not_lt, Int64.not_le] at hrange
              exact .inl ⟨⟨not_not.1 haligned, hrange⟩, mapWord_of_inside hword _⟩
      | jump =>
          simp only [Patch.Reaches]
          split
          · rename_i haligned
            exact .inr ⟨fun h => haligned h.1, _, rfl⟩
          · rename_i haligned
            split
            · rename_i hregion
              exact .inr ⟨fun h => hregion h.2, _, rfl⟩
            · rename_i hregion
              exact .inl ⟨⟨not_not.1 haligned, not_not.1 hregion⟩, mapWord_of_inside hword _⟩
      | slice => exact .inl ⟨trivial, mapWord_of_inside hword _⟩
      | address =>
          refine .inl ⟨trivial, patchSlices_of_inside fun n hn => hroom n ?_⟩
          rw [toNat_wordsOf hkind]
          have hall : ∀ n ∈ [0, 1, 2, 3], n < Patch.address.words := by decide
          exact hall n hn

/-- A relocation whose words lie in the image, if it passes its check, is applied exactly if its label has
    an address, it passes the check, and the address is in reach; it never leaves the image. -/
theorem relocate_cases {scene : Scene} {j : Job} {images : PerSegment ByteArray}
    (hroom : j.Checked →
      Room j.relocation.kind (j.pc scene - scene.addr j.segment) (images.get j.segment)) :
    ((∃ out, relocate scene j.index j.input j.relocation images = .ok out) ↔
      ∃ addr, target? scene j.index j.input.file j.relocation = some addr ∧ j.Checked ∧
        ∀ what, j.relocation.kind.patch? = some what → what.InReach (j.pc scene) addr) ∧
    relocate scene j.index j.input j.relocation images ≠ .error .outOfBounds := by
  simp only [relocate]
  cases htarget : target? scene j.index j.input.file j.relocation with
  | none => simp
  | some addr =>
      simp only [Option.some.injEq, exists_eq_left']
      split
      · rename_i hoff
        refine ⟨?_, by simp⟩
        simp only [reduceCtorEq, exists_const, false_iff, not_and]
        exact fun h => absurd hoff h
      · rename_i hchecked
        have hall := patch_cases (.relocation j.input.name j.relocation.label) (hroom hchecked)
          (j.pc scene) addr
        simp only [Patch.reaches_iff, Job.pc, Job.segment] at hall ⊢
        rcases hall with ⟨hreach, image, hpatch⟩ | ⟨⟨what, hwhat, hfar⟩, cause, hpatch⟩
        · rw [hpatch]
          exact ⟨⟨fun _ => ⟨hchecked, hreach⟩, fun _ => ⟨_, rfl⟩⟩, by simp⟩
        · rw [hpatch]
          refine ⟨⟨?_, fun h => absurd (h.2 what hwhat) hfar⟩, by simp⟩
          rintro ⟨out, hout⟩
          cases hout

/-! ### All relocations -/

theorem Chain.split {scene : Scene} {jobs more : List Job} {images after : PerSegment ByteArray}
    (h : Chain scene (jobs ++ more) images after) :
    ∃ next, Chain scene jobs images next ∧ Chain scene more next after := by
  induction jobs generalizing images with
  | nil => exact ⟨images, .nil images, h⟩
  | cons j rest ih =>
      cases h with
      | cons head tail =>
          obtain ⟨next, hrest, hmore⟩ := ih tail
          exact ⟨next, .cons head hrest, hmore⟩

theorem relocateAll_of_chain {scene : Scene} {index : Nat} {input : Input} {relocations : List Relocation}
    {images after : PerSegment ByteArray} (log : List Event)
    (h : Chain scene (relocations.map fun r => ⟨index, input, r⟩) images after) :
    ∃ log', relocateAll scene index input relocations images log = .ok (after, log') := by
  induction relocations generalizing images log with
  | nil =>
      cases h
      exact ⟨log, rfl⟩
  | cons r rest ih =>
      cases h with
      | @cons _ _ _ next _ event head tail =>
          have hhead : relocate scene index input r images = .ok (next, event) := head
          rw [relocateAll, hhead]
          exact ih (event :: log) tail

theorem relocateInputs_of_chain {scene : Scene} {index : Nat} {inputs : List Input}
    {images after : PerSegment ByteArray} (log : List Event)
    (h : Chain scene (jobsFrom index inputs) images after) :
    ∃ log', relocateInputs scene index inputs images log = .ok (after, log') := by
  induction inputs generalizing index images log with
  | nil =>
      cases h
      exact ⟨log, rfl⟩
  | cons input rest ih =>
      obtain ⟨next, hfirst, hrest⟩ := h.split
      obtain ⟨log', hall⟩ := relocateAll_of_chain log hfirst
      rw [relocateInputs, hall]
      exact ih log' hrest

/-- The images have the sizes of the layouts. -/
def Sized (layouts : PerSegment Layout) (images : PerSegment ByteArray) : Prop :=
  ∀ s, (images.get s).size = (layouts.get s).image.size

/-- A relocation that is applied keeps the sizes of the images. -/
theorem Sized.relocate {layouts : PerSegment Layout} {scene : Scene} {j : Job}
    {images after : PerSegment ByteArray} {event : Event} (h : Sized layouts images)
    (hj : relocate scene j.index j.input j.relocation images = .ok (after, event)) :
    Sized layouts after := by
  intro s
  rw [(Chain.cons hj (.nil after)).size_eq s, h s]

/-- Relocations can be applied one after the other if each of them can be applied to images of the right
    sizes. -/
theorem exists_chain_iff {layouts : PerSegment Layout} {scene : Scene} {jobs : List Job} {P : Job → Prop}
    (hstep : ∀ j ∈ jobs, ∀ images, Sized layouts images →
      ((∃ out, relocate scene j.index j.input j.relocation images = .ok out) ↔ P j))
    {images : PerSegment ByteArray} (h : Sized layouts images) :
    (∃ after, Chain scene jobs images after) ↔ ∀ j ∈ jobs, P j := by
  induction jobs generalizing images with
  | nil => exact ⟨fun _ => by simp, fun _ => ⟨images, .nil images⟩⟩
  | cons j rest ih =>
      have hhead := hstep j List.mem_cons_self images h
      have hrest := fun k hk => hstep k (List.mem_cons_of_mem _ hk)
      rw [List.forall_mem_cons, ← hhead]
      constructor
      · rintro ⟨after, hchain⟩
        cases hchain with
        | cons head tail => exact ⟨⟨_, head⟩, (ih hrest (h.relocate head)).1 ⟨after, tail⟩⟩
      · rintro ⟨⟨⟨next, event⟩, head⟩, hall⟩
        obtain ⟨after, tail⟩ := (ih hrest (h.relocate head)).2 hall
        exact ⟨after, .cons head tail⟩

/-! ### Room in the layout -/

/-- An image that a section is appended to holds what it held, and the section at the offset. -/
theorem size_append_ge (image : ByteArray) (offset : Nat) (c : Section) :
    image.size ≤ (append image offset c).size ∧ offset + c.data.size ≤ (append image offset c).size := by
  simp only [append, ByteArray.size_append, Bytes.size_zeros]
  omega

/-- Every section lies in the image that is laid out, wherever its address wraps. -/
theorem layOut_room {s : Segment} {addr : UInt64} {done rest : List (Nat × Input)}
    {layout after : Layout} {log log' : List Event}
    (hdone : ∀ p ∈ done, layout.offsetOf addr p.1 + (p.2.bytes s).size ≤ layout.image.size)
    (hnodup : ((done ++ rest).map Prod.fst).Nodup)
    (h : layOut s addr rest layout log = .ok (after, log')) :
    ∀ p ∈ done ++ rest, after.offsetOf addr p.1 + (p.2.bytes s).size ≤ after.image.size := by
  induction rest generalizing done layout log with
  | nil =>
      cases h
      rwa [List.append_nil]
  | cons p rest ih =>
      obtain ⟨index, input⟩ := p
      obtain ⟨-, -, hrest⟩ := layOut_cons_eq_ok_iff.1 h
      set offset := (Bytes.roundUp (Bytes.size64 layout.image) s.align).toNat with hoffset
      have hbase : Bytes.roundUp (Bytes.size64 layout.image) s.align = UInt64.ofNat offset := by
        rw [hoffset, UInt64.ofNat_toNat]
      have hnew : index ∉ done.map Prod.fst := by
        rw [List.map_append, List.map_cons] at hnodup
        exact fun hmem => (List.nodup_append.1 hnodup).2.2 index hmem index List.mem_cons_self rfl
      have hsize := size_append_ge layout.image offset (input.file.sections.get s)
      rw [hbase] at hrest
      set next : Layout :=
        { image := append layout.image offset (input.file.sections.get s)
          bases := (index, addr + UInt64.ofNat offset) :: layout.bases } with hlayout
      have hnext : ∀ p ∈ done ++ [(index, input)],
          next.offsetOf addr p.1 + (p.2.bytes s).size ≤ next.image.size := by
        intro p hp
        rcases List.mem_append.1 hp with hold | hlast
        · have hne : p.1 ≠ index := by
            rintro rfl
            exact hnew (List.mem_map_of_mem hold)
          have hinside := hdone p hold
          rw [hlayout, offsetOf_cons_of_ne layout hne]
          exact hinside.trans hsize.1
        · rw [List.mem_singleton.1 hlast, hlayout, offsetOf_cons_self layout addr (UInt64.toNat_lt _)]
          exact hsize.2
      have hall := ih hnext (by simpa using hnodup) hrest
      simpa using hall

/-- The data of an input lie in the image of the segment. -/
theorem data_inside {inputs : List Input} {layouts : PerSegment Layout} {log : List Event}
    (hlaid : layOutAll inputs = .ok (layouts, log)) {index : Nat} {input : Input}
    (hinput : inputs[index]? = some input) (s : Segment) :
    (layouts.get s).offsetOf (segmentAddr inputs s) index + (input.bytes s).size ≤
      (layouts.get s).image.size := by
  obtain ⟨before, after, hout⟩ := layOutAll_eq_ok hlaid s
  have hroom : ∀ p ∈ [] ++ order inputs s,
      (layouts.get s).offsetOf (segmentAddr inputs s) p.1 + (p.2.bytes s).size ≤
        (layouts.get s).image.size :=
    layOut_room (by simp) (nodup_order inputs s) hout
  exact hroom (index, input) (mem_order.2 hinput)

theorem wordsOf_le (kind : RelocationKind) : (wordsOf kind).toNat ≤ 4 := by
  rw [wordsOf]
  split <;> decide

/-- The end of a relocation is exact unless it wraps. -/
theorem toNat_stop {r : Relocation} (h : r.stop < 2 ^ 64) :
    (r.position + 4 * wordsOf r.kind).toNat = r.stop := by
  have hwords := wordsOf_le r.kind
  have hfour : (4 : UInt64).toNat = 4 := rfl
  rw [Relocation.stop] at h ⊢
  rw [UInt64.toNat_add, UInt64.toNat_mul, hfour]
  omega

namespace Job

/-- A relocation whose end does not wrap passes its check if it lies in the bytes of its input. -/
theorem checked_iff {j : Job} (hsize : (j.input.bytes j.segment).size < 2 ^ 64)
    (hstop : j.relocation.stop < 2 ^ 64) :
    j.Checked ↔ j.relocation.stop ≤ (j.input.bytes j.segment).size := by
  rw [Checked, UInt64.lt_iff_toNat_lt, toNat_stop hstop, Bytes.toNat_size64 hsize, Nat.not_lt]

/-- The place of a relocation in the image is its position from the start of its section. -/
theorem pc_sub_addr (inputs : List Input) (globals : List Global) (layouts : PerSegment Layout) (j : Job) :
    j.pc (sceneOf inputs globals layouts) - (sceneOf inputs globals layouts).addr j.segment =
      ((layouts.get j.segment).baseOf j.index - segmentAddr inputs j.segment) +
        j.relocation.position := by
  simp only [pc, sceneOf]
  rw [UInt64.sub_eq_add_neg, UInt64.sub_eq_add_neg]
  ac_rfl

/-- A relocation that lies in the bytes of its input has room in the image. -/
theorem room {inputs : List Input} {layouts : PerSegment Layout} {log : List Event}
    (hlaid : layOutAll inputs = .ok (layouts, log)) {j : Job} (hinput : inputs[j.index]? = some j.input)
    (hstop : j.relocation.stop ≤ (j.input.bytes j.segment).size) {images : PerSegment ByteArray}
    (hsized : Sized layouts images) (globals : List Global) :
    Room j.relocation.kind
      (j.pc (sceneOf inputs globals layouts) - (sceneOf inputs globals layouts).addr j.segment)
      (images.get j.segment) := by
  have hinside := data_inside hlaid hinput j.segment
  intro n hn
  simp only [Layout.offsetOf] at hinside
  rw [Relocation.stop] at hstop
  rw [pc_sub_addr, hsized j.segment, UInt64.toNat_add, UInt64.toNat_add, UInt64.toNat_ofNat']
  omega

end Job

end Linker

end VectorRisc
