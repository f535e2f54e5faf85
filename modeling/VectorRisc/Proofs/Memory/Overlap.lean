/-
Module: VectorRisc.Proofs.Memory.Overlap
Layer: Proofs
Purpose: Which regions can share an address. Regions are added apart from each other, but a heap is added
  empty and grows later, past regions that start below it. Two regions share an address exactly if one of
  them was the heap and starts within the other.
Imports: Mathlib.Tactic, VectorRisc.Proofs.Memory.Region
Trusted boundary: none
Main exports: Memory.Request, Memory.after, Memory.WasHeap, Memory.moveBreak_cases, Memory.Settled,
  Memory.settled_after, Memory.shared_iff_heap_starts_within
Open obligations: none
-/
import Mathlib.Tactic
import VectorRisc.Proofs.Memory.Region

namespace VectorRisc

namespace Memory

/-! ### Requests -/

/-- What can be asked of the address map. -/
inductive Request where
  | place (p : Placement)
  | moveBreak (delta : Int64)

def request (m : Memory) : Request → Except Error Memory
  | .place p => m.place p
  | .moveBreak delta => m.moveBreak delta

/-- The memory after requests from an empty one, of which those that fail change nothing. -/
def after (requests : List Request) : Memory := requests.foldl (attempt request) {}

/-- The region at a place of the order is the heap, or was it once. -/
def WasHeap (requests : List Request) (i : Nat) : Prop :=
  ∃ earlier, earlier <+: requests ∧ (after earlier).heap = some i

theorem WasHeap.concat {requests : List Request} {i : Nat} (h : WasHeap requests i) (a : Request) :
    WasHeap (requests ++ [a]) i := by
  obtain ⟨earlier, hprefix, hheap⟩ := h
  exact ⟨earlier, hprefix.trans (List.prefix_append _ _), hheap⟩

/-! ### Moves of the break -/

/-- A break that may move stays at or above the start of the heap, and does not pass the start of a region
    that starts there or above. Regions that start below the heap are not looked at. -/
theorem moveFault?_eq_none {m : Memory} {delta : Int64} {i : Nat} {heap : Region} (hi : m.heap = some i)
    (hheap : m.regions[i]? = some heap) (hmoves : delta ≠ 0) (h : m.moveFault? delta = none) :
    (heap.first ≤ heap.stop → heap.first ≤ heap.stop + delta.toUInt64) ∧
      ∀ j s, j ≠ i → m.regions[j]? = some s →
        s.size = 0 ∨ s.first < heap.first ∨ heap.stop + delta.toUInt64 ≤ s.first := by
  have hfound : m.heap? = some heap := by rw [heap?, hi, Option.bind_some, hheap]
  simp only [moveFault?, hfound, if_neg hmoves] at h
  split at h
  · cases h
  · rename_i hdown
    split at h
    · cases h
    · rename_i hup
      constructor
      · intro hordered
        rcases Int64.lt_or_lt_of_ne hmoves with hneg | hpos
        · simp only [hneg, decide_true, Bool.true_and, Bool.or_eq_true, decide_eq_true_eq, not_or,
            UInt64.not_lt] at hdown
          exact hdown.2
        · simp only [hpos, decide_true, Bool.true_and, decide_eq_true_eq, UInt64.not_lt] at hup
          exact UInt64.le_trans hordered hup
      · intro j s hj hs
        have hmem : (s, j) ∈ m.regions.zipIdx := List.mk_mem_zipIdx_iff_getElem?.2 hs
        have hpassed := List.findSome?_eq_none_iff.1 h (s, j) hmem
        split at hpassed
        · rename_i hclear
          simp only [hi, Option.some.injEq, Ne.symm hj, decide_false, Bool.false_or, Bool.or_eq_true,
            decide_eq_true_eq, or_assoc] at hclear
          exact hclear
        · cases hpassed

/-- A move of the break changes nothing, or the last address of the heap. -/
theorem moveBreak_cases {m next : Memory} {delta : Int64} (h : m.moveBreak delta = .ok next) :
    (delta = 0 ∧ next = m) ∨ ∃ i heap, m.heap = some i ∧ m.regions[i]? = some heap ∧ delta ≠ 0 ∧
      m.moveFault? delta = none ∧
      next = { m with regions := m.regions.set i (resize heap (heap.stop + delta.toUInt64)) } := by
  rw [moveBreak] at h
  split at h
  · cases h
  · rename_i hfault
    cases h
    by_cases hzero : delta = 0
    · refine .inl ⟨hzero, ?_⟩
      rw [shift]
      split
      · rfl
      · rw [if_pos hzero]
    · right
      cases hfound : m.heap? with
      | none => simp [moveFault?, hfound] at hfault
      | some heap =>
          obtain ⟨i, hi, hheap⟩ := Option.bind_eq_some_iff.1 hfound
          refine ⟨i, heap, hi, hheap, hzero, hfault, ?_⟩
          simp only [shift, hi, if_neg hzero]
          rw [List.modify_eq_set_getElem?, hheap]
          rfl

theorem stop_resize (heap : Region) (stop : UInt64) : (resize heap stop).stop = stop := by
  simp [resize, Region.stop]

/-- A heap that has grown shares addresses only with a region that it starts in. -/
theorem starts_within {heap s : Region} {stop addr : UInt64} (hordered : heap.first ≤ stop)
    (hclear : s.size = 0 ∨ s.first < heap.first ∨ stop ≤ s.first)
    (hheap : (resize heap stop).contains addr = true) (hs : s.contains addr = true) :
    (resize heap stop).contains heap.first = true ∧ s.contains heap.first = true := by
  obtain ⟨hsize, hfirst, hlast⟩ := Region.contains_iff.1 hheap
  obtain ⟨hsize', hfirst', hlast'⟩ := Region.contains_iff.1 hs
  have hnonempty : stop ≠ heap.first := by
    intro hsame
    apply hsize
    simp [resize, Region.size, hsame]
  -- so the break is above the start of the heap, and the last address is one below the break
  have hbelow : addr < stop := by
    have hend : addr ≤ stop - 1 := hlast
    have hpos : (1 : UInt64) ≤ stop := by
      have hne : stop.toNat ≠ heap.first.toNat := fun hsame => hnonempty (UInt64.toNat_inj.1 hsame)
      rw [UInt64.le_iff_toNat_le] at hordered ⊢
      rw [UInt64.toNat_one]
      omega
    rw [UInt64.le_iff_toNat_le, UInt64.toNat_sub_of_le _ _ hpos, UInt64.toNat_one] at hend
    rw [UInt64.le_iff_toNat_le, UInt64.toNat_one] at hpos
    rw [UInt64.lt_iff_toNat_lt]
    omega
  have hstart : heap.first ≤ addr := hfirst
  refine ⟨Region.contains_iff.2 ⟨hsize, UInt64.le_refl _, UInt64.le_trans hfirst hlast⟩,
    Region.contains_iff.2 ⟨hsize', ?_, UInt64.le_trans hstart hlast'⟩⟩
  rcases hclear with hempty | hunder | hpast
  · exact absurd hempty hsize'
  · exact UInt64.le_of_lt hunder
  · exact absurd (UInt64.lt_of_lt_of_le hbelow (UInt64.le_trans hpast hfirst')) (UInt64.lt_irrefl addr)

/-! ### The invariant -/

/-- One region was the heap and starts within the other. -/
def StartsWithin (wasHeap : Nat → Prop) (i : Nat) (r s : Region) : Prop :=
  wasHeap i ∧ r.contains r.first = true ∧ s.contains r.first = true

/-- The heap is one of the regions, ends at or above its start, and is known to be one; regions that share
    an address do so because a heap starts within another region. -/
structure Settled (m : Memory) (wasHeap : Nat → Prop) : Prop where
  heap : ∀ i, m.heap = some i → wasHeap i ∧ ∃ heap, m.regions[i]? = some heap ∧ heap.first ≤ heap.stop
  shared : ∀ i j r s addr, i ≠ j → m.regions[i]? = some r → m.regions[j]? = some s →
    r.contains addr = true → s.contains addr = true →
      StartsWithin wasHeap i r s ∨ StartsWithin wasHeap j s r

variable {m next : Memory} {wasHeap known : Nat → Prop}

theorem Settled.weaken (h : m.Settled wasHeap) (hknown : ∀ i, wasHeap i → known i) : m.Settled known := by
  constructor
  · intro i hi
    obtain ⟨hwas, heap, hregion, hordered⟩ := h.heap i hi
    exact ⟨hknown i hwas, heap, hregion, hordered⟩
  · intro i j r s addr hne hr hs hin hin'
    rcases h.shared i j r s addr hne hr hs hin hin' with ⟨hwas, hwithin⟩ | ⟨hwas, hwithin⟩
    · exact .inl ⟨hknown i hwas, hwithin⟩
    · exact .inr ⟨hknown j hwas, hwithin⟩

/-- A region that is added shares no address. -/
theorem Settled.place (h : m.Settled wasHeap) {p : Placement} (hplace : m.place p = .ok next)
    (hnext : ∀ i, next.heap = some i → wasHeap i) : next.Settled wasHeap := by
  obtain ⟨hregions, hapart, hheap⟩ := place_eq_ok hplace
  have hcases : ∀ i r, next.regions[i]? = some r →
      m.regions[i]? = some r ∨ (i = m.regions.length ∧ r = m.placed p) := by
    intro i r hr
    rw [hregions] at hr
    by_cases hi : i < m.regions.length
    · rw [List.getElem?_append_left hi] at hr
      exact .inl hr
    · rw [List.getElem?_append_right (Nat.not_lt.1 hi), List.getElem?_singleton] at hr
      split at hr
      · cases hr
        exact .inr ⟨by omega, rfl⟩
      · cases hr
  have hfree : ∀ (s : Region) (addr : UInt64) (j : Nat), m.regions[j]? = some s →
      (m.placed p).contains addr = true → s.contains addr ≠ true := by
    intro s addr j hs hin
    rw [not_contains_of_overlaps (hapart s (List.mem_of_getElem? hs)) hin]
    exact Bool.false_ne_true
  constructor
  · intro i hi
    refine ⟨hnext i hi, ?_⟩
    rcases hheap with hsame | ⟨hnew, hempty⟩
    · rw [hsame] at hi
      obtain ⟨-, heap, hregion, hordered⟩ := h.heap i hi
      have hlt := (List.getElem?_eq_some_iff.1 hregion).1
      exact ⟨heap, by rw [hregions, List.getElem?_append_left hlt, hregion], hordered⟩
    · rw [hnew] at hi
      cases hi
      refine ⟨m.placed p, by rw [hregions, List.getElem?_concat_length], ?_⟩
      rw [Region.stop_eq_first hempty]
      exact UInt64.le_refl _
  · intro i j r s addr hne hr hs hin hin'
    rcases hcases i r hr with hr | ⟨rfl, rfl⟩
    · rcases hcases j s hs with hs | ⟨rfl, rfl⟩
      · exact h.shared i j r s addr hne hr hs hin hin'
      · exact absurd hin (hfree r addr i hr hin')
    · rcases hcases j s hs with hs | ⟨rfl, rfl⟩
      · exact absurd hin' (hfree s addr j hs hin)
      · exact absurd rfl hne

/-- A heap that grows comes to share addresses with no region but one that it starts in. -/
theorem Settled.moveBreak (h : m.Settled wasHeap) {delta : Int64} (hmove : m.moveBreak delta = .ok next) :
    next.Settled wasHeap := by
  rcases moveBreak_cases hmove with ⟨-, rfl⟩ | ⟨k, heap, hk, hheap, hmoves, hfault, rfl⟩
  · exact h
  · obtain ⟨hwas, found, hfound, hordered⟩ := h.heap k hk
    obtain rfl : found = heap := Option.some.inj (hfound.symm.trans hheap)
    obtain ⟨habove, hclear⟩ := moveFault?_eq_none hk hheap hmoves hfault
    have hlt := (List.getElem?_eq_some_iff.1 hheap).1
    generalize found.stop + delta.toUInt64 = stop at habove hclear ⊢
    have hgrown : ∀ j s addr, j ≠ k → m.regions[j]? = some s →
        (resize found stop).contains addr = true → s.contains addr = true →
        StartsWithin wasHeap k (resize found stop) s := by
      intro j s addr hj hs hin hin'
      exact ⟨hwas, starts_within (habove hordered) (hclear j s hj hs) hin hin'⟩
    constructor
    · intro i hi
      rw [hk] at hi
      cases hi
      refine ⟨hwas, resize found stop, List.getElem?_set_self hlt, ?_⟩
      rw [stop_resize]
      exact habove hordered
    · intro i j r s addr hne hr hs hin hin'
      by_cases hi : i = k
      · subst hi
        rw [List.getElem?_set_self hlt] at hr
        cases hr
        rw [List.getElem?_set_ne hne] at hs
        exact .inl (hgrown j s addr (Ne.symm hne) hs hin hin')
      · rw [List.getElem?_set_ne (Ne.symm hi)] at hr
        by_cases hj : j = k
        · subst hj
          rw [List.getElem?_set_self hlt] at hs
          cases hs
          exact .inr (hgrown i r addr hi hr hin' hin)
        · rw [List.getElem?_set_ne (Ne.symm hj)] at hs
          exact h.shared i j r s addr hne hr hs hin hin'

/-- The invariant holds after any requests. -/
theorem settled_after (requests : List Request) : (after requests).Settled (WasHeap requests) := by
  induction requests using List.reverseRecOn with
  | nil => exact ⟨by simp [after], by simp [after]⟩
  | append_singleton rest a ih =>
      have hrun : after (rest ++ [a]) = attempt request (after rest) a := List.foldl_concat _ _ _ _
      have hknown : (after rest).Settled (WasHeap (rest ++ [a])) := ih.weaken fun i hi => hi.concat a
      have hnow : ∀ i, (after (rest ++ [a])).heap = some i → WasHeap (rest ++ [a]) i := by
        intro i hi
        exact ⟨_, List.prefix_refl _, hi⟩
      cases hstep : request (after rest) a with
      | error e =>
          rw [hrun, attempt_error hstep]
          exact hknown
      | ok next =>
          rw [hrun, attempt_ok hstep] at hnow ⊢
          cases a with
          | place p => exact hknown.place hstep hnow
          | moveBreak delta => exact hknown.moveBreak hstep

/-- Two regions share an address exactly if one of them was the heap and starts within the other. -/
theorem shared_iff_heap_starts_within (requests : List Request) {i j : Nat} {r s : Region} (hne : i ≠ j)
    (hr : (after requests).regions[i]? = some r) (hs : (after requests).regions[j]? = some s) :
    (∃ addr, r.contains addr = true ∧ s.contains addr = true) ↔
      (WasHeap requests i ∧ r.contains r.first = true ∧ s.contains r.first = true) ∨
      (WasHeap requests j ∧ s.contains s.first = true ∧ r.contains s.first = true) := by
  constructor
  · rintro ⟨addr, hin, hin'⟩
    exact (settled_after requests).shared i j r s addr hne hr hs hin hin'
  · rintro (⟨-, hin, hin'⟩ | ⟨-, hin', hin⟩)
    · exact ⟨r.first, hin, hin'⟩
    · exact ⟨s.first, hin, hin'⟩

/-- A heap, a region around its start, and a move of the break. -/
def straddled : List Request :=
  [.place (.heap 0x1000),
    .place (.region (Text.ofString "a") 0xff0 0x20 Access.rw ByteArray.empty (by decide)),
    .moveBreak 8]

theorem straddled_regions : (after straddled).regions =
    [resize (heapRegion {} 0x1000) 0x1008,
      Region.make (Text.ofString "a") 0xff0 0x20 Access.rw ByteArray.empty] := by
  decide +kernel

/-- The heap has grown into the region that it starts in. -/
theorem shared_iff_heap_starts_within_straddled :
    ∃ r s, (after straddled).regions = [r, s] ∧ WasHeap straddled 0 ∧
      ∃ addr, r.contains addr = true ∧ s.contains addr = true := by
  have hwas : WasHeap straddled 0 := ⟨straddled, List.prefix_refl _, by decide +kernel⟩
  refine ⟨_, _, straddled_regions, hwas, ?_⟩
  refine (shared_iff_heap_starts_within straddled Nat.zero_ne_one (by rw [straddled_regions]; rfl)
    (by rw [straddled_regions]; rfl)).2 (.inl ⟨hwas, ?_, ?_⟩)
  · decide +kernel
  · decide +kernel

/-- Requests that are all granted can leave two regions that share an address. -/
theorem regions_not_always_apart :
    ¬∀ (requests : List Request) (i j : Nat) (r s : Region) (addr : UInt64), i ≠ j →
      (after requests).regions[i]? = some r → (after requests).regions[j]? = some s →
        ¬(r.contains addr = true ∧ s.contains addr = true) := by
  intro h
  refine h straddled 0 1 _ _ 0x1000 Nat.zero_ne_one (by rw [straddled_regions]; rfl)
    (by rw [straddled_regions]; rfl) ⟨?_, ?_⟩
  · decide +kernel
  · decide +kernel

end Memory

end VectorRisc
