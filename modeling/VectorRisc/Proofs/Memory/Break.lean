/-
Module: VectorRisc.Proofs.Memory.Break
Layer: Proofs
Purpose: The break over any run of moves and stores. As long as no other region lies where the heap grows,
  the heap is as long as the sum of its moves, and each of its bytes is the last one that was stored since
  its address came to the heap, or zero.
Imports: Mathlib.Tactic, VectorRisc.Proofs.Instruction.Word, VectorRisc.Proofs.Memory.Store
Trusted boundary: none
Main exports: Memory.Resizes, Memory.moveBreak_resizes, Memory.moveFault?_bounds, Memory.Clear,
  Memory.Tended, Memory.Operation, Memory.Tended.act, Memory.Arrived, Memory.Accounts,
  Memory.Accounts.concat, Memory.break_accounts
Open obligations: none
-/
import Mathlib.Tactic
import VectorRisc.Proofs.Instruction.Word
import VectorRisc.Proofs.Memory.Store

namespace VectorRisc

/-- A buffer that is cut has its bytes up to the cut. -/
theorem Buffer.get_truncate (b : Buffer) (size : UInt64) (i : Nat) :
    (b.truncate size).get i = if i < size.toNat then b.get i else 0 := by
  rw [truncate]
  split
  · rename_i hless
    rw [UInt64.le_iff_toNat_le] at hless
    split
    · rfl
    · rw [get, if_neg (by omega)]
  · rename_i hmore
    rw [UInt64.not_le, UInt64.lt_iff_toNat_lt] at hmore
    simp only [get]
    by_cases hi : i < size.toNat
    · rw [if_pos hi, if_pos hi, if_pos (hi.trans hmore), Bytes.byteAt_clear, if_neg (by omega)]
    · rw [if_neg hi, if_neg hi]

/-- The addresses of a region that ends at or above its start are those from its start to its end. -/
theorem Region.contains_iff_of_le {r : Region} (h : r.first ≤ r.stop) {a : UInt64} :
    r.contains a = true ↔ r.first ≤ a ∧ a < r.stop := by
  have hlast := r.last.toNat_lt
  have hfirst := r.first.toNat_lt
  have hsize : r.size = 0 ↔ r.size.toNat = 0 := by rw [← UInt64.toNat_inj, UInt64.toNat_zero]
  rw [contains_iff, ne_eq, hsize]
  simp only [UInt64.le_iff_toNat_le, UInt64.lt_iff_toNat_lt, stop, size, UInt64.toNat_sub, UInt64.toNat_add,
    UInt64.toNat_one] at h ⊢
  omega

namespace Memory

variable {m after : Memory} {delta : Int64}

/-! ### One move of the break -/

/-- The bytes of a heap that is resized are those that it had, as far as it reaches. -/
theorem byte_resize (heap : Region) (next a : UInt64) : (resize heap next).byte a =
    if (a - heap.first).toNat < (next - heap.first).toNat then heap.byte a else 0 :=
  Buffer.get_truncate _ _ _

/-- Every byte of a heap that is resized is the one that its storage had. -/
theorem byte_resize_of_contains {heap : Region} {next a : UInt64}
    (ha : (resize heap next).contains a = true) : (resize heap next).byte a = heap.byte a := by
  obtain ⟨-, hfirst, hlast⟩ := Region.contains_iff.1 ha
  have hstart : heap.first ≤ a := hfirst
  have hoffset := UInt64.toNat_sub_of_le _ _ hstart
  have hlength : (resize heap next).size = next - heap.first := by simp [resize, Region.size]
  have hsize := Region.toNat_size ha
  rw [hlength] at hsize
  rw [UInt64.le_iff_toNat_le] at hfirst hlast
  have hreach : (a - heap.first).toNat < (next - heap.first).toNat := by
    rw [hsize, hoffset, show heap.first = (resize heap next).first from rfl]
    omega
  rw [byte_resize, if_pos hreach]

/-- The storage of a heap has no byte above its end. -/
theorem byte_eq_zero {heap : Region} (h : heap.Sound) (hordered : heap.first ≤ heap.stop) {a : UInt64}
    (hstart : heap.first ≤ a) (ha : ¬heap.contains a = true) : heap.byte a = 0 := by
  have hoffset := UInt64.toNat_sub_of_le _ _ hstart
  have hsize : heap.size.toNat = heap.stop.toNat - heap.first.toNat :=
    UInt64.toNat_sub_of_le _ _ hordered
  have hwithin := h.buffer.within
  rw [h.limit, UInt64.le_iff_toNat_le] at hwithin
  rw [Region.contains_iff_of_le hordered, not_and, UInt64.not_lt] at ha
  have habove := UInt64.le_iff_toNat_le.1 (ha hstart)
  rw [Region.byte, Buffer.get, if_neg (by omega)]

/-- A heap that is resized to where it ends is the same. -/
theorem resize_stop {heap : Region} (h : heap.Sound) : resize heap heap.stop = heap := by
  have hlast : heap.stop - 1 = heap.last := by rw [Region.stop, UInt64.add_sub_cancel]
  have hlimit : heap.stop - heap.first = heap.buffer.limit := h.limit.symm
  have hfull : ({ heap.buffer with limit := heap.buffer.limit } : Buffer).truncate heap.buffer.limit =
      heap.buffer := by
    rw [Buffer.truncate, if_pos h.buffer.within]
  simp only [resize, hlast, hlimit, hfull]

/-- The memory with its heap resized by a number of bytes: no other region changes, and an address that
    the heap had and still has keeps its byte. -/
def Resizes (m : Memory) (delta : Int64) (after : Memory) : Prop :=
  ∃ i heap, m.heap = some i ∧ m.regions[i]? = some heap ∧
    after = { m with regions := m.regions.set i (resize heap (heap.stop + delta.toUInt64)) } ∧
    ∀ a, heap.contains a = true → (resize heap (heap.stop + delta.toUInt64)).contains a = true →
      (resize heap (heap.stop + delta.toUInt64)).byte a = heap.byte a

/-- A break that moves resizes the heap and does nothing else. -/
theorem moveBreak_resizes (hstorage : ∀ r ∈ m.regions, r.Sound) (h : m.moveBreak delta = .ok after) :
    m.Resizes delta after := by
  rcases moveBreak_cases h with ⟨rfl, hsame⟩ | ⟨i, heap, hi, hheap, -, -, rfl⟩
  · subst hsame
    cases hfound : after.heap? with
    | none => simp [moveBreak, moveFault?, hfound] at h
    | some heap =>
        obtain ⟨i, hi, hheap⟩ := Option.bind_eq_some_iff.1 hfound
        obtain ⟨hlt, hget⟩ := List.getElem?_eq_some_iff.1 hheap
        have hregions : after.regions.set i heap = after.regions := by
          rw [← hget, List.set_getElem_self]
        have hsame : resize heap (heap.stop + (0 : Int64).toUInt64) = heap := by
          rw [show (0 : Int64).toUInt64 = 0 from rfl, UInt64.add_zero,
            resize_stop (hstorage heap (List.mem_of_getElem? hheap))]
        refine ⟨i, heap, hi, hheap, ?_, fun a _ ha => byte_resize_of_contains ha⟩
        rw [hsame, hregions]
  · exact ⟨i, heap, hi, hheap, rfl, fun a _ ha => byte_resize_of_contains ha⟩

/-- A break that may move comes to be where it was asked to, at or above the start of the heap. -/
theorem moveFault?_bounds {i : Nat} {heap : Region} (hi : m.heap = some i)
    (hheap : m.regions[i]? = some heap) (hordered : heap.first ≤ heap.stop)
    (h : m.moveFault? delta = none) :
    ((heap.stop + delta.toUInt64).toNat : Int) = heap.stop.toNat + delta.toInt ∧
      heap.first ≤ heap.stop + delta.toUInt64 := by
  by_cases hzero : delta = 0
  · rw [hzero, show (0 : Int64).toUInt64 = 0 from rfl, UInt64.add_zero, Int64.toInt_zero, Int.add_zero]
    exact ⟨rfl, hordered⟩
  · refine ⟨?_, (moveFault?_eq_none hi hheap hzero h).1 hordered⟩
    have hfound : m.heap? = some heap := by rw [heap?, hi, Option.bind_some, hheap]
    simp only [moveFault?, hfound, if_neg hzero] at h
    split at h
    · cases h
    · rename_i hdown
      split at h
      · cases h
      · rename_i hup
        have hstop := heap.stop.toNat_lt
        have hcount := toNat_toUInt64 delta
        have hleast := delta.le_toInt
        have hmost := delta.toInt_lt
        simp only [Bool.and_eq_true, Bool.or_eq_true, decide_eq_true_eq, not_and, not_or,
          UInt64.not_lt, Int64.lt_iff_toInt_lt, Int64.toInt_zero, UInt64.le_iff_toNat_le,
          UInt64.toNat_add] at hdown hup
        rw [UInt64.toNat_add]
        omega

/-! ### A heap with nothing in its way -/

/-- A region that is not in the way of a heap: it has no address, or ends below the heap, or starts at the
    end of the heap or above. -/
def OutOfWay (heap s : Region) : Prop := s.size = 0 ∨ s.last < heap.first ∨ heap.stop ≤ s.first

/-- There is a heap, and no other region is in its way. -/
def Clear (m : Memory) : Prop :=
  ∃ i heap, m.heap = some i ∧ m.regions[i]? = some heap ∧
    ∀ j s, j ≠ i → m.regions[j]? = some s → OutOfWay heap s

/-- The start of the heap, zero if there is none. -/
def heapFirst (m : Memory) : UInt64 := (m.heap?.map Region.first).getD 0

/-- The address is one of the heap. -/
def InHeap (m : Memory) (a : UInt64) : Prop := m.heapFirst ≤ a ∧ a < m.heapEnd

/-- The region at a place is the heap. It can be read and written, its storage is sound, and no other
    region is in its way. -/
structure Tended (m : Memory) (i : Nat) (heap : Region) : Prop where
  place : m.heap = some i
  found : m.regions[i]? = some heap
  ordered : heap.first ≤ heap.stop
  sound : heap.Sound
  access : heap.access = Access.rw
  others : ∀ j s, j ≠ i → m.regions[j]? = some s → OutOfWay heap s

namespace Tended

variable {i : Nat} {heap : Region} {a : UInt64}

theorem heap?_eq (h : m.Tended i heap) : m.heap? = some heap := by
  rw [heap?, h.place, Option.bind_some, h.found]

theorem heapFirst_eq (h : m.Tended i heap) : m.heapFirst = heap.first := by
  rw [heapFirst, h.heap?_eq, Option.map_some, Option.getD_some]

theorem heapEnd_eq (h : m.Tended i heap) : m.heapEnd = heap.stop := by
  rw [heapEnd, h.heap?_eq, Option.map_some, Option.getD_some]

theorem inHeap_iff (h : m.Tended i heap) : m.InHeap a ↔ heap.contains a = true := by
  rw [InHeap, h.heapFirst_eq, h.heapEnd_eq, Region.contains_iff_of_le h.ordered]

theorem clear (h : m.Tended i heap) : m.Clear := ⟨i, heap, h.place, h.found, h.others⟩

/-- A region that has an address of the heap is the heap. -/
theorem eq_of_contains (h : m.Tended i heap) (ha : heap.contains a = true) {j : Nat} {s : Region}
    (hs : m.regions[j]? = some s) (hin : s.contains a = true) : j = i := by
  by_contra hother
  obtain ⟨hfirst, hstop⟩ := (Region.contains_iff_of_le h.ordered).1 ha
  obtain ⟨hsize, hfirst', hlast⟩ := Region.contains_iff.1 hin
  rcases h.others j s hother hs with hempty | hbelow | habove
  · exact hsize hempty
  · exact absurd (UInt64.lt_of_le_of_lt hlast hbelow) (UInt64.not_lt.2 hfirst)
  · exact absurd (UInt64.lt_of_lt_of_le hstop habove) (UInt64.not_lt.2 hfirst')

/-- An address of the heap is looked up there. -/
theorem region?_eq (h : m.Tended i heap) (ha : heap.contains a = true) : m.region? a = some heap := by
  obtain ⟨hlt, hget⟩ := List.getElem?_eq_some_iff.1 h.found
  refine List.find?_eq_some_iff_getElem.2 ⟨ha, i, hlt, hget, ?_⟩
  intro j hj
  rw [Bool.not_eq_true']
  by_contra hin
  exact absurd (h.eq_of_contains ha (List.getElem?_eq_getElem (hj.trans hlt)) (Bool.of_not_eq_false hin))
    hj.ne

/-- A byte of the heap is loaded from its address. -/
theorem load_eq (h : m.Tended i heap) (ha : heap.contains a = true) :
    m.load a 1 = .ok [heap.byte a] := by
  have hreadable : heap.access.allows Access.forRead = true := by
    rw [h.access]
    rfl
  have hallowed : heap.fault? a 1 Access.forRead = none := by
    have halt := a.toNat_lt
    refine (Region.fault?_eq_none_iff_contains (by norm_num) ha).2 ⟨hreadable, Nat.one_pos, by omega, ?_⟩
    intro k hk
    obtain rfl : k = 0 := by omega
    rwa [show UInt64.ofNat 0 = 0 from rfl, UInt64.add_zero]
  rw [load, read, fault?, h.region?_eq ha]
  simp only [hallowed, get, h.region?_eq ha]
  simp [Region.get, Buffer.read, Region.byte]

end Tended

/-! ### One operation -/

/-- What a program can do to its heap: ask for its break to move, and store bytes, there or elsewhere. -/
inductive Operation where
  | sbrk (delta : Int64)
  | store (w : Write)

/-- The memory after an operation. -/
def act (m : Memory) : Operation → Except Error Memory
  | .sbrk delta => (m.sbrk delta).2
  | .store w => m.write w

namespace Operation

/-- How far the break is to move. -/
def moves : Operation → Int
  | .sbrk delta => delta.toInt
  | .store _ => 0

/-- The byte that is stored at an address. -/
def byte? (a : UInt64) : Operation → Option UInt8
  | .sbrk _ => none
  | .store w => w.byte? a

end Operation

/-- The heap after an operation: where it starts, where it ends, and the bytes that it has. -/
structure Succeeds (op : Operation) (heap next : Region) : Prop where
  first : next.first = heap.first
  stop : (next.stop.toNat : Int) = heap.stop.toNat + op.moves
  byte : ∀ a, next.contains a = true →
    next.byte a = (op.byte? a).getD (if heap.contains a then heap.byte a else 0)

/-- A break that moves leaves the heap with nothing in its way. -/
theorem Tended.sbrk {i : Nat} {heap : Region} (h : m.Tended i heap)
    (hmove : m.moveBreak delta = .ok after) :
    ∃ next, after.Tended i next ∧ Succeeds (.sbrk delta) heap next := by
  rcases moveBreak_cases hmove with ⟨rfl, rfl⟩ | ⟨k, found, hk, hfound, hmoves, hfault, rfl⟩
  · refine ⟨heap, h, rfl, (Int.add_zero _).symm, ?_⟩
    intro a ha
    rw [if_pos ha]
    rfl
  · obtain rfl : i = k := Option.some.inj (h.place.symm.trans hk)
    obtain rfl : heap = found := Option.some.inj (h.found.symm.trans hfound)
    obtain ⟨hstop, hordered⟩ := moveFault?_bounds hk hfound h.ordered hfault
    have hclear := (moveFault?_eq_none hk hfound hmoves hfault).2
    have hlt := (List.getElem?_eq_some_iff.1 hfound).1
    rw [← stop_resize heap (heap.stop + delta.toUInt64)] at hstop
    refine ⟨resize heap (heap.stop + delta.toUInt64), ?_, rfl, hstop, ?_⟩
    · refine ⟨hk, List.getElem?_set_self hlt, ?_, h.sound.resize _, h.access, ?_⟩
      · rw [stop_resize]
        exact hordered
      · intro j s hj hs
        rw [List.getElem?_set_ne (Ne.symm hj)] at hs
        rw [OutOfWay, stop_resize]
        -- a region that is not below the heap started at its end or above, and was looked at
        rcases h.others j s hj hs with hempty | hbelow | habove
        · exact .inl hempty
        · exact .inr (.inl hbelow)
        · rcases hclear j s hj hs with hempty | hunder | hpast
          · exact .inl hempty
          · exact absurd (UInt64.lt_of_lt_of_le hunder h.ordered) (UInt64.not_lt.2 habove)
          · exact .inr (.inr hpast)
    · intro a ha
      have hstart : heap.first ≤ a := (Region.contains_iff.1 ha).2.1
      rw [byte_resize_of_contains ha]
      change heap.byte a = if heap.contains a then heap.byte a else 0
      split
      · rfl
      · rename_i hout
        exact byte_eq_zero h.sound h.ordered hstart hout

/-- The region of a write that it allows has every address that is written. -/
theorem Write.contains_of_byte? (w : Write) {r : Region} (haddr : r.contains w.addr = true)
    (hfault : r.fault? w.addr w.bytes.length Access.forWrite = none) {a : UInt64}
    (ha : w.byte? a ≠ none) : r.contains a = true := by
  obtain ⟨-, -, -, hall⟩ := (Region.fault?_eq_none_iff_contains w.fits haddr).1 hfault
  have hin : (a - w.addr).toNat < w.bytes.length := by
    by_contra hpast
    exact ha (List.getElem?_eq_none (Nat.not_lt.1 hpast))
  have hplace := hall _ hin
  rwa [UInt64.ofNat_toNat, UInt64.add_comm, UInt64.sub_add_cancel] at hplace

/-- A store leaves the heap where it is. -/
theorem Tended.store {i : Nat} {heap : Region} (h : m.Tended i heap) {w : Write}
    (hwrite : m.write w = .ok after) :
    ∃ next, after.Tended i next ∧ Succeeds (.store w) heap next := by
  rw [write, Memory.store] at hwrite
  split at hwrite
  · cases hwrite
  · rename_i hfault
    cases hwrite
    obtain ⟨r, hregion, haddr, hallowed⟩ := storeFault?_eq_none hfault
    have hfault' := (Option.or_eq_none_iff.1 hallowed).1
    have hr : m.regions[m.regions.findIdx fun r => r.contains w.addr]? = some r := by
      rw [← List.find?_eq_getElem?_findIdx, ← hregion, region?]
    have hregions := getElem?_put m w.addr w.bytes
    generalize m.regions.findIdx (fun r => r.contains w.addr) = k at hr hregions
    have hothers : ∀ j s, j ≠ i → (m.put w.addr w.bytes).regions[j]? = some s → OutOfWay heap s := by
      intro j s hj hs
      rw [hregions] at hs
      obtain ⟨before, hbefore, rfl⟩ := Option.map_eq_some_iff.1 hs
      have hclear := h.others j before hj hbefore
      split
      · exact hclear
      · exact hclear
    by_cases hk : k = i
    · obtain rfl : heap = r := Option.some.inj (h.found.symm.trans (hk ▸ hr))
      obtain ⟨hsound, hbytes⟩ := h.sound.put w.fits haddr hfault'
      refine ⟨heap.put w.addr w.bytes, ⟨h.place, ?_, h.ordered, hsound, h.access, hothers⟩, rfl,
        (Int.add_zero _).symm, ?_⟩
      · rw [hregions, h.found, Option.map_some, if_pos hk]
      · intro a ha
        have hin : heap.contains a = true := ha
        rw [if_pos hin]
        exact hbytes a hin
    · refine ⟨heap, ⟨h.place, ?_, h.ordered, h.sound, h.access, hothers⟩, rfl, (Int.add_zero _).symm, ?_⟩
      · rw [hregions, h.found, Option.map_some, if_neg hk]
      · intro a ha
        -- the region that was written to has every address that is written, and is not the heap
        have hnone : w.byte? a = none := by
          by_contra hsome
          exact hk (h.eq_of_contains ha hr (w.contains_of_byte? haddr hfault' hsome))
        rw [if_pos ha, Operation.byte?, hnone, Option.getD_none]

/-- What an operation that succeeds does to the heap. -/
theorem Tended.act {i : Nat} {heap : Region} (h : m.Tended i heap) {op : Operation}
    (hact : m.act op = .ok after) : ∃ next, after.Tended i next ∧ Succeeds op heap next := by
  cases op with
  | sbrk delta => exact h.sbrk hact
  | store w => exact h.store hact

/-! ### Runs -/

/-- A heap that is laid out has no address yet. -/
theorem heap_laid (placements : List Placement) {i : Nat}
    (hi : (placements.foldl (attempt place) {}).heap = some i) :
    ∃ heap, (placements.foldl (attempt place) {}).regions[i]? = some heap ∧ heap.size = 0 ∧
      heap.access = Access.rw := by
  induction placements using List.reverseRecOn with
  | nil => cases hi
  | append_singleton rest p ih =>
      rw [List.foldl_concat] at hi ⊢
      cases hplace : place (rest.foldl (attempt place) {}) p with
      | error e =>
          rw [attempt_error hplace] at hi ⊢
          exact ih hi
      | ok after =>
          rw [attempt_ok hplace] at hi ⊢
          generalize rest.foldl (attempt place) {} = m at ih hplace
          -- a heap that was there before is still the same region
          have hkept : after.heap = m.heap →
              ∃ heap, after.regions[i]? = some heap ∧ heap.size = 0 ∧ heap.access = Access.rw := by
            intro hsame
            obtain ⟨heap, hheap, hempty, haccess⟩ := ih (hsame ▸ hi)
            have hlt := (List.getElem?_eq_some_iff.1 hheap).1
            refine ⟨heap, ?_, hempty, haccess⟩
            rw [(place_eq_ok hplace).1, List.getElem?_append_left hlt, hheap]
          cases p with
          | region name first size access image fits =>
              obtain ⟨rfl, -⟩ := add_eq_ok hplace
              exact hkept rfl
          | stack size =>
              obtain ⟨rfl, -⟩ := addStack_eq_ok hplace
              exact hkept rfl
          | heap gap =>
              obtain rfl := addHeap_eq_ok hplace
              cases hi
              exact ⟨m.heapRegion gap, List.getElem?_concat_length, size_heapRegion m gap, rfl⟩

/-- A memory that was laid out with nothing in the way of its heap. -/
theorem tended_laid (placements : List Placement) (h : (placements.foldl (attempt place) {}).Clear) :
    ∃ i heap, (placements.foldl (attempt place) {}).Tended i heap ∧ heap.size = 0 := by
  obtain ⟨i, heap, hi, hfound, hothers⟩ := h
  obtain ⟨laid, hlaid, hempty, haccess⟩ := heap_laid placements hi
  obtain rfl : heap = laid := Option.some.inj (hfound.symm.trans hlaid)
  have hsound := (shows_built placements).sound.storage heap (List.mem_of_getElem? hfound)
  have hordered : heap.first ≤ heap.stop := by
    rw [Region.stop_eq_first hempty]
    exact UInt64.le_refl _
  exact ⟨i, heap, ⟨hi, hfound, hordered, hsound, haccess, hothers⟩, hempty⟩

/-- The memory after operations, of which those that fail change nothing. -/
def operated (start : Memory) (ops : List Operation) : Memory := ops.foldl (attempt act) start

/-- The moves of the break that were granted, added up. -/
def totalMoves (start : Memory) (ops : List Operation) : Int :=
  ((accepted act start ops).map Operation.moves).sum

/-- The last byte that operations store at an address, zero if they store none. -/
def lastStored (m : Memory) (ops : List Operation) (a : UInt64) : UInt8 :=
  ((accepted act m ops).reverse.findSome? (·.byte? a)).getD 0

/-- An address came to the heap when the break moved after the operations `before`, and has stayed there
    through those `since`. -/
structure Arrived (start : Memory) (a : UInt64) (before : List Operation) (delta : Int64)
    (since : List Operation) : Prop where
  absent : ¬(operated start before).InHeap a
  present : ∀ part, part <+: since → (operated start (before ++ Operation.sbrk delta :: part)).InHeap a

section Runs

variable {start : Memory} {ops : List Operation} {op : Operation} {a : UInt64}

theorem operated_concat (start : Memory) (ops : List Operation) (op : Operation) :
    operated start (ops ++ [op]) = attempt act (operated start ops) op := List.foldl_concat _ _ _ _

theorem operated_append (start : Memory) (ops more : List Operation) :
    operated start (ops ++ more) = operated (operated start ops) more := List.foldl_append

theorem lastStored_concat (h : (operated start ops).act op = .ok after) :
    lastStored start (ops ++ [op]) a = (op.byte? a).getD (lastStored start ops a) := by
  rw [lastStored, accepted_concat_ok h, List.reverse_append, List.reverse_singleton,
    List.singleton_append, List.findSome?_cons]
  cases op.byte? a <;> rfl

theorem Arrived.concat {before since : List Operation} (h : Arrived start a before delta since)
    (hin : (operated start (before ++ Operation.sbrk delta :: (since ++ [op]))).InHeap a) :
    Arrived start a before delta (since ++ [op]) := by
  refine ⟨h.absent, ?_⟩
  intro part hpart
  rcases List.prefix_concat_iff.1 hpart with rfl | hshort
  · exact hin
  · exact h.present part hshort

/-- The heap after operations: it starts where it did, ends where the moves of its break have added up to,
    and each of its bytes is the last one that was stored since its address came to the heap. -/
structure Accounts (start : Memory) (ops : List Operation) (i : Nat) (base : UInt64) (heap : Region) :
    Prop where
  tended : (operated start ops).Tended i heap
  first : heap.first = base
  stop : (heap.stop.toNat : Int) = base.toNat + totalMoves start ops
  byte : ∀ a, heap.contains a = true → ∃ before delta since, ops = before ++ Operation.sbrk delta :: since ∧
    Arrived start a before delta since ∧
    heap.byte a = lastStored (operated start (before ++ [Operation.sbrk delta])) since a

/-- An address that stays in the heap through one operation more came to it when it did before. -/
theorem Accounts.stays {i : Nat} {base : UInt64} {heap next : Region} (h : Accounts start ops i base heap)
    (hnext : (operated start (ops ++ [op])).Tended i next) (ha : heap.contains a = true)
    (hin : next.contains a = true) :
    ∃ before delta since, ops ++ [op] = before ++ Operation.sbrk delta :: (since ++ [op]) ∧
      Arrived start a before delta (since ++ [op]) ∧
      operated (operated start (before ++ [Operation.sbrk delta])) since = operated start ops ∧
      heap.byte a = lastStored (operated start (before ++ [Operation.sbrk delta])) since a := by
  obtain ⟨before, delta, since, rfl, harrived, hbyte⟩ := h.byte a ha
  have hops : before ++ Operation.sbrk delta :: since ++ [op] =
      before ++ Operation.sbrk delta :: (since ++ [op]) := by simp
  have hnow := hnext.inHeap_iff.2 hin
  rw [hops] at hnow
  refine ⟨before, delta, since, hops, harrived.concat hnow, ?_, hbyte⟩
  rw [← operated_append, List.append_assoc, List.singleton_append]

/-- One operation more. -/
theorem Accounts.concat {i : Nat} {base : UInt64} {heap : Region} (h : Accounts start ops i base heap)
    (op : Operation) : ∃ next, Accounts start (ops ++ [op]) i base next := by
  cases hact : (operated start ops).act op with
  | error e =>
      have hsame : operated start (ops ++ [op]) = operated start ops := by
        rw [operated_concat, attempt_error hact]
      have htended : (operated start (ops ++ [op])).Tended i heap := hsame ▸ h.tended
      refine ⟨heap, htended, h.first, ?_, ?_⟩
      · rw [totalMoves, accepted_concat_error hact]
        exact h.stop
      · intro a ha
        obtain ⟨before, delta, since, hops, harrived, hstate, hbyte⟩ := h.stays htended ha ha
        refine ⟨before, delta, since ++ [op], hops, harrived, ?_⟩
        rw [lastStored, accepted_concat_error (hstate ▸ hact)]
        exact hbyte
  | ok after =>
      have hafter : operated start (ops ++ [op]) = after := by rw [operated_concat, attempt_ok hact]
      obtain ⟨next, htended, hfirst, hstop, hbytes⟩ := h.tended.act hact
      rw [← hafter] at htended
      refine ⟨next, htended, hfirst.trans h.first, ?_, ?_⟩
      · rw [totalMoves, accepted_concat_ok hact, List.map_append, List.sum_append, List.map_singleton,
          List.sum_singleton, hstop, h.stop, totalMoves, Int.add_assoc]
      · intro a ha
        by_cases hheld : heap.contains a = true
        · obtain ⟨before, delta, since, hops, harrived, hstate, hbyte⟩ := h.stays htended hheld ha
          refine ⟨before, delta, since ++ [op], hops, harrived, ?_⟩
          rw [lastStored_concat (hstate ▸ hact), ← hbyte, hbytes a ha, if_pos hheld]
        · -- only a move of the break brings an address to the heap
          cases op with
          | store w =>
              have hsame : next.stop = heap.stop := UInt64.toNat_inj.1 (by simpa [Operation.moves] using hstop)
              have hin := (Region.contains_iff_of_le htended.ordered).1 ha
              rw [hfirst, hsame] at hin
              exact absurd ((Region.contains_iff_of_le h.tended.ordered).2 hin) hheld
          | sbrk delta =>
              refine ⟨ops, delta, [], rfl, ⟨?_, ?_⟩, ?_⟩
              · rw [h.tended.inHeap_iff]
                exact hheld
              · intro part hpart
                rw [List.prefix_nil.1 hpart]
                exact htended.inHeap_iff.2 ha
              · rw [hbytes a ha, if_neg hheld]
                rfl

/-- The heap after any operations on a memory whose heap has no address yet. -/
theorem accounts_operated {i : Nat} {heap : Region} (h : start.Tended i heap) (hempty : heap.size = 0)
    (ops : List Operation) : ∃ next, Accounts start ops i heap.first next := by
  induction ops using List.reverseRecOn with
  | nil =>
      refine ⟨heap, h, rfl, by simp [Region.stop_eq_first hempty, totalMoves, accepted], ?_⟩
      intro a ha
      exact absurd hempty (Region.contains_iff.1 ha).1
  | append_singleton rest op ih =>
      obtain ⟨before, hbefore⟩ := ih
      exact hbefore.concat op

end Runs

/-- As long as nothing was in its way when it was laid out, nothing comes to be in the way of a heap. A
    request to move its break answers where the break was; it changes nothing if it fails, and otherwise
    moves the break by as much as it was asked to, not below the start of the heap, so that the heap is as
    long as the moves add up to. Each of its bytes is loaded as the last one that was stored since its
    address came to the heap, and as zero if none was. -/
theorem break_accounts (placements : List Placement) (ops : List Operation)
    (hclear : (placements.foldl (attempt place) {}).Clear) :
    let start := placements.foldl (attempt place) {}
    let m := operated start ops
    m.Clear ∧
    (∀ delta, (m.sbrk delta).1 = m.heapEnd ∧
      (∀ e, (m.sbrk delta).2 = .error e → operated start (ops ++ [Operation.sbrk delta]) = m) ∧
      ∀ after, (m.sbrk delta).2 = .ok after → operated start (ops ++ [Operation.sbrk delta]) = after ∧
        (after.heapEnd.toNat : Int) = m.heapEnd.toNat + delta.toInt ∧
        after.heapFirst = m.heapFirst ∧ after.heapFirst ≤ after.heapEnd) ∧
    (m.heapFirst = start.heapFirst ∧ m.heapFirst ≤ m.heapEnd ∧
      (m.heapEnd.toNat : Int) - m.heapFirst.toNat = totalMoves start ops) ∧
    ∀ a, m.InHeap a → ∃ before delta since, ops = before ++ Operation.sbrk delta :: since ∧
      Arrived start a before delta since ∧
      m.load a 1 = .ok [lastStored (operated start (before ++ [Operation.sbrk delta])) since a] := by
  intro start m
  obtain ⟨i, base, hbase, hempty⟩ := tended_laid placements hclear
  obtain ⟨heap, haccounts⟩ := accounts_operated hbase hempty ops
  have htended : m.Tended i heap := haccounts.tended
  refine ⟨htended.clear, ?_, ⟨?_, ?_, ?_⟩, ?_⟩
  · intro delta
    refine ⟨rfl, ?_, ?_⟩
    · intro e herror
      rw [operated_concat]
      exact attempt_error herror
    · intro after hmoved
      obtain ⟨next, hnext, hfirst, hstop, -⟩ := htended.sbrk hmoved
      rw [operated_concat, hnext.heapEnd_eq, hnext.heapFirst_eq, htended.heapEnd_eq, htended.heapFirst_eq]
      exact ⟨attempt_ok hmoved, hstop, hfirst, hnext.ordered⟩
  · rw [htended.heapFirst_eq, haccounts.first]
    exact hbase.heapFirst_eq.symm
  · rw [htended.heapFirst_eq, htended.heapEnd_eq]
    exact htended.ordered
  · rw [htended.heapFirst_eq, htended.heapEnd_eq, haccounts.stop, haccounts.first]
    exact add_sub_cancel_left _ _
  · intro a ha
    have hin := htended.inHeap_iff.1 ha
    obtain ⟨before, delta, since, hops, harrived, hbyte⟩ := haccounts.byte a hin
    refine ⟨before, delta, since, hops, harrived, ?_⟩
    rw [htended.load_eq hin, hbyte]

/-- A region and a heap above it. -/
def aboveText : List Placement :=
  [.region (Text.ofString "text") 0x1000 0x100 Access.rx (Bytes.ofList [5, 0, 0, 0]) (by decide),
    .heap 0x1000]

/-- A byte is stored in a heap that shrinks over it and grows again. -/
def regrown : List Operation :=
  [.sbrk 64, .store ⟨0x2110, [7], by decide⟩, .sbrk (-64), .sbrk 32]

theorem clear_aboveText : (aboveText.foldl (attempt place) {}).Clear := by
  have hregions : (aboveText.foldl (attempt place) {}).regions =
      [Region.make (Text.ofString "text") 0x1000 0x100 Access.rx (Bytes.ofList [5, 0, 0, 0]),
        Region.make (Text.ofString "heap") 0x2100 0 Access.rw ByteArray.empty] := by
    decide +kernel
  refine ⟨1, _, by decide +kernel, by rw [hregions]; rfl, ?_⟩
  intro j s hj hs
  rw [hregions] at hs
  match j with
  | 0 =>
      cases hs
      exact .inr (.inl (by decide))
  | 1 => exact absurd rfl hj
  | _ + 2 => cases hs

/-- The heap is as long as its last growth, and the byte that it held before is gone. -/
theorem break_accounts_regrown : (aboveText.foldl (attempt place) {}).Clear ∧
    let m := operated (aboveText.foldl (attempt place) {}) regrown
    (m.heapEnd.toNat : Int) - m.heapFirst.toNat = 32 ∧ m.load 0x2110 1 = .ok [0] := by
  refine ⟨clear_aboveText, ?_⟩
  obtain ⟨-, -, ⟨-, -, hlength⟩, -⟩ := break_accounts aboveText regrown clear_aboveText
  refine ⟨hlength.trans ?_, ?_⟩
  · decide +kernel
  · decide +kernel

end Memory

end VectorRisc
