/-
Module: VectorRisc.Proofs.Memory.Buffer
Layer: Proofs
Purpose: A buffer as the list of bytes that count. Whatever was done to it, a buffer gives the answers that
  a list of bytes with zeros behind its end would give, and its storage past the size is zero, so that it
  may grow into storage that was released.
Imports: Mathlib.Data.List.GetD, Mathlib.Tactic, VectorRisc.Proofs.Memory.Break
Trusted boundary: none
Main exports: Buffer.Operation, Buffer.act, Buffer.Operation.onBytes, Buffer.Holds, Buffer.Holds.act,
  answers, Buffer.holds_answers, Buffer.answers_eq_bytes
Open obligations: none
-/
import Mathlib.Data.List.GetD
import Mathlib.Tactic
import VectorRisc.Proofs.Memory.Break

namespace VectorRisc

/-! ### Runs with answers -/

section Answers

variable {σ τ α β : Type}

/-- The answers to some requests, one after the other, and the state that they leave. -/
def answers (step : σ → α → β × σ) : σ → List α → List β × σ
  | s, [] => ([], s)
  | s, a :: rest =>
    let (answer, next) := step s a
    let (more, last) := answers step next rest
    (answer :: more, last)

/-- Two machines whose steps give equal answers and keep a relation give equal answers all along. -/
theorem answers_related {step : σ → α → β × σ} {spec : τ → α → β × τ} {R : σ → τ → Prop} {P : α → Prop}
    (hstep : ∀ s t a, R s t → P a → (step s a).1 = (spec t a).1 ∧ R (step s a).2 (spec t a).2)
    {s : σ} {t : τ} (hstart : R s t) {requests : List α} (h : ∀ a ∈ requests, P a) :
    (answers step s requests).1 = (answers spec t requests).1 ∧
      R (answers step s requests).2 (answers spec t requests).2 := by
  induction requests generalizing s t with
  | nil => exact ⟨rfl, hstart⟩
  | cons a rest ih =>
      obtain ⟨ha, hrest⟩ := List.forall_mem_cons.1 h
      obtain ⟨hanswer, hnext⟩ := hstep s t a hstart ha
      obtain ⟨hmore, hlast⟩ := ih hnext hrest
      exact ⟨congrArg₂ List.cons hanswer hmore, hlast⟩

end Answers

/-! ### Bytes with zeros behind them -/

namespace Bytes

/-- The bytes with others in place of those from `start` on. -/
def overlaid (start : Nat) (others bytes : List UInt8) : List UInt8 :=
  bytes.take start ++ others ++ bytes.drop (start + others.length)

/-- Zeros at the end are the zeros that are read there anyway. -/
theorem getD_rightpad (n i : Nat) (bytes : List UInt8) : (bytes.rightpad n 0).getD i 0 = bytes.getD i 0 := by
  simp only [List.getD_eq_getElem?_getD, List.rightpad, List.getElem?_append, List.getElem?_replicate]
  by_cases hi : i < bytes.length
  · rw [if_pos hi]
  · rw [if_neg hi, List.getElem?_eq_none (Nat.not_lt.1 hi)]
    split <;> rfl

theorem getD_take (n i : Nat) (bytes : List UInt8) :
    (bytes.take n).getD i 0 = if i < n then bytes.getD i 0 else 0 := by
  simp only [List.getD_eq_getElem?_getD, List.getElem?_take]
  split <;> rfl

theorem length_overlaid {start : Nat} {others bytes : List UInt8}
    (h : start + others.length ≤ bytes.length) : (overlaid start others bytes).length = bytes.length := by
  simp only [overlaid, List.length_append, List.length_take, List.length_drop]
  omega

theorem getD_overlaid {start : Nat} {others bytes : List UInt8} (h : start ≤ bytes.length) (i : Nat) :
    (overlaid start others bytes).getD i 0 =
      if start ≤ i ∧ i < start + others.length then others.getD (i - start) 0 else bytes.getD i 0 := by
  have hfront : (bytes.take start).length = start := List.length_take_of_le h
  simp only [overlaid, List.append_assoc, List.getD_eq_getElem?_getD, List.getElem?_append, hfront]
  by_cases hbefore : i < start
  · rw [if_pos hbefore, List.getElem?_take_of_lt hbefore, if_neg (by omega)]
  · by_cases hin : i - start < others.length
    · rw [if_neg hbefore, if_pos hin, if_pos (by omega)]
    · rw [if_neg hbefore, if_neg hin, if_neg (by omega), List.getElem?_drop]
      congr 2
      omega

end Bytes

namespace Buffer

/-! ### Operations -/

/-- What can be done to a buffer. -/
inductive Operation where
  | grow (size : UInt64)
  | truncate (size : UInt64)
  | write (offset : UInt64) (bytes : List UInt8)
  | read (offset : UInt64) (n : Nat)

/-- The bytes that are read, or why the operation fails; the other operations give no bytes. -/
abbrev Answer := Except Memory.Error (List UInt8)

/-- What an operation answers, and the buffer after it. One that fails leaves the buffer as it was. -/
def act (b : Buffer) : Operation → Answer × Buffer
  | .grow size =>
    match b.grow size with
    | .ok next => (.ok [], next)
    | .error e => (.error e, b)
  | .truncate size => (.ok [], b.truncate size)
  | .write offset bytes =>
    match b.write offset bytes with
    | .ok next => (.ok [], next)
    | .error e => (.error e, b)
  | .read offset n => (.ok (b.read offset n), b)

namespace Operation

/-- The bytes that are read or written end below `2 ^ 64`. -/
def Fits : Operation → Prop
  | .write offset bytes => offset.toNat + bytes.length < 2 ^ 64
  | .read offset n => offset.toNat + n < 2 ^ 64
  | _ => True

instance decidableFits : DecidablePred Fits
  | .grow _ => .isTrue trivial
  | .truncate _ => .isTrue trivial
  | .write offset bytes => Nat.decLt (offset.toNat + bytes.length) (2 ^ 64)
  | .read offset n => Nat.decLt (offset.toNat + n) (2 ^ 64)

/-- What an operation answers on a plain list of bytes of limited length, and the bytes after it. -/
def onBytes (limit : UInt64) (bytes : List UInt8) : Operation → Answer × List UInt8
  | .grow size =>
    if limit < size then (.error (.bufferLimit size limit), bytes)
    else (.ok [], bytes.rightpad size.toNat 0)
  | .truncate size => (.ok [], bytes.take size.toNat)
  | .write offset others =>
    let stop := offset.toNat + others.length
    if limit.toNat < stop then (.error (.bufferLimit (UInt64.ofNat stop) limit), bytes)
    else (.ok [], Bytes.overlaid offset.toNat others (bytes.rightpad stop 0))
  | .read offset n => (.ok (((bytes.drop offset.toNat).take n).rightpad n 0), bytes)

end Operation

/-! ### One operation -/

/-- The buffer holds these bytes, as many as count, and its storage is sound and within the limit. -/
structure Holds (limit : UInt64) (b : Buffer) (bytes : List UInt8) : Prop where
  limited : b.limit = limit
  length : b.size.toNat = bytes.length
  get : ∀ i, b.get i = bytes.getD i 0
  sound : b.Sound
  capacity : b.data.size ≤ limit.toNat

theorem holds_empty (limit : UInt64) : Holds limit { limit := limit } [] where
  limited := rfl
  length := rfl
  get i := by simp [Buffer.get]
  sound := ⟨UInt64.zero_le, Nat.zero_le _, fun i _ => Bytes.byteAt_of_le (Nat.zero_le i)⟩
  capacity := Nat.zero_le _

theorem toNat_size_extend (b : Buffer) (size : UInt64) :
    (b.extend size).size.toNat = max size.toNat b.size.toNat := by
  rw [extend]
  by_cases hless : size ≤ b.size
  · rw [if_pos hless]
    rw [UInt64.le_iff_toNat_le] at hless
    omega
  · rw [if_neg hless]
    rw [UInt64.not_le, UInt64.lt_iff_toNat_lt] at hless
    split <;> (simp only; omega)

/-- New storage is not larger than the limit. -/
theorem capacity_extend {b : Buffer} (hsize : b.size ≤ b.limit) (h : b.data.size ≤ b.limit.toNat)
    (size : UInt64) : (b.extend size).data.size ≤ b.limit.toNat := by
  rw [UInt64.le_iff_toNat_le] at hsize
  rw [extend]
  split
  · exact h
  · split
    · exact h
    · have hcapacity : b.capacityFor size ≤ b.limit.toNat := Nat.min_le_right _ _
      simp only [ByteArray.size_append, ByteArray.size_extract, Bytes.size_zeros]
      omega

namespace Holds

variable {limit : UInt64} {b : Buffer} {bytes : List UInt8}

theorem toList_eq (h : Holds limit b bytes) : b.toList = bytes := by
  have hlength : b.toList.length = bytes.length := by simp [toList, h.length]
  apply List.ext_getElem hlength
  intro i hi hi'
  simp only [toList, List.getElem_map, List.getElem_range, h.get, List.getD_eq_getElem?_getD,
    List.getElem?_eq_getElem hi', Option.getD_some]

/-- Since the size is within the limit, only the limit decides whether a buffer may grow. -/
theorem growFault?_eq (h : Holds limit b bytes) (size : UInt64) :
    b.growFault? size = if limit < size then some (.bufferLimit size limit) else none := by
  have hsize : b.size ≤ limit := h.limited ▸ h.sound.within
  rw [growFault?, h.limited]
  by_cases hbeyond : limit < size
  · rw [if_pos hbeyond, if_pos (by simpa [hbeyond] using UInt64.lt_of_le_of_lt hsize hbeyond)]
  · rw [if_neg hbeyond, if_neg (by simp [hbeyond])]

/-- A write that does not wrap is refused as growing to its end is. -/
theorem writeFault?_eq (h : Holds limit b bytes) {offset : UInt64} {n : Nat}
    (hfits : offset.toNat + n < 2 ^ 64) :
    b.writeFault? offset n = if limit.toNat < offset.toNat + n then
      some (.bufferLimit (UInt64.ofNat (offset.toNat + n)) limit) else none := by
  have hstop : offset + UInt64.ofNat n = UInt64.ofNat (offset.toNat + n) := by
    rw [UInt64.ofNat_add, UInt64.ofNat_toNat]
  have hvalue : (UInt64.ofNat (offset.toNat + n)).toNat = offset.toNat + n := UInt64.toNat_ofNat_of_lt' hfits
  have hwrap : ¬UInt64.ofNat (offset.toNat + n) < offset := by
    rw [UInt64.lt_iff_toNat_lt, hvalue]
    omega
  rw [writeFault?, hstop, if_neg hwrap, Option.or_none, h.growFault?_eq]
  simp only [UInt64.lt_iff_toNat_lt, hvalue]

/-- Growing within the limit pads with zeros. -/
theorem extend (h : Holds limit b bytes) {size : UInt64} (hsize : size ≤ limit) :
    Holds limit (b.extend size) (bytes.rightpad size.toNat 0) := by
  have hallowed : size ≤ b.limit := h.limited ▸ hsize
  obtain ⟨hsound, hlimit, -, hbytes⟩ := h.sound.extend hallowed
  refine ⟨hlimit.trans h.limited, ?_, ?_, hsound, ?_⟩
  · rw [toNat_size_extend, List.length_rightpad, h.length]
  · intro i
    rw [hsound.get_eq, hbytes, ← h.sound.get_eq, h.get, Bytes.getD_rightpad]
  · have hcapacity := capacity_extend h.sound.within (h.limited ▸ h.capacity) size
    rwa [h.limited] at hcapacity

theorem truncate (h : Holds limit b bytes) (size : UInt64) :
    Holds limit (b.truncate size) (bytes.take size.toNat) := by
  have hkept : (b.truncate size).size.toNat = min size.toNat b.size.toNat := by
    rw [Buffer.truncate]
    by_cases hless : b.size ≤ size
    · rw [if_pos hless]
      rw [UInt64.le_iff_toNat_le] at hless
      omega
    · rw [if_neg hless]
      rw [UInt64.not_le, UInt64.lt_iff_toNat_lt] at hless
      simp only
      omega
  have hstorage : (b.truncate size).data.size = b.data.size := by
    rw [Buffer.truncate]
    split
    · rfl
    · exact Bytes.size_clear _ _ _
  -- what is released is cleared, and what lay behind it was clear
  have hclear : ∀ i, (b.truncate size).size.toNat ≤ i → Bytes.byteAt (b.truncate size).data i = 0 := by
    intro i hi
    rw [hkept] at hi
    rw [Buffer.truncate]
    split
    · rename_i hless
      rw [UInt64.le_iff_toNat_le] at hless
      exact h.sound.clear i (by omega)
    · rw [Bytes.byteAt_clear]
      split
      · rfl
      · exact h.sound.clear i (by omega)
  have hwithin := UInt64.le_iff_toNat_le.1 h.sound.within
  have hstored := h.sound.stored
  refine ⟨(limit_truncate b size).trans h.limited, ?_, ?_, ⟨?_, ?_, hclear⟩, ?_⟩
  · rw [hkept, List.length_take, h.length]
  · intro i
    rw [get_truncate, h.get, Bytes.getD_take]
  · rw [UInt64.le_iff_toNat_le, hkept, limit_truncate]
    omega
  · omega
  · rw [hstorage]
    exact h.capacity

/-- Bytes that are put within the limit overlay those that were there. -/
theorem put (h : Holds limit b bytes) {offset : UInt64} {others : List UInt8}
    (hreach : offset.toNat + others.length ≤ limit.toNat) :
    Holds limit (b.put offset others)
      (Bytes.overlaid offset.toNat others (bytes.rightpad (offset.toNat + others.length) 0)) := by
  have hlt := limit.toNat_lt
  have hstop : (offset + UInt64.ofNat others.length).toNat = offset.toNat + others.length := by
    rw [UInt64.toNat_add, UInt64.toNat_ofNat']
    omega
  have hgrown : offset + UInt64.ofNat others.length ≤ limit := by
    rw [UInt64.le_iff_toNat_le, hstop]
    exact hreach
  have hextended := h.extend hgrown
  rw [hstop] at hextended
  have hallowed : offset.toNat + others.length ≤ b.limit.toNat := h.limited ▸ hreach
  obtain ⟨hsound, -, hinside, houtside⟩ := h.sound.put hallowed
  have hroom : offset.toNat + others.length ≤ (bytes.rightpad (offset.toNat + others.length) 0).length := by
    rw [List.length_rightpad]
    exact Nat.le_max_left _ _
  refine ⟨hextended.limited, ?_, ?_, hsound, ?_⟩
  · rw [Bytes.length_overlaid hroom]
    exact hextended.length
  · intro i
    rw [Bytes.getD_overlaid (by omega), Bytes.getD_rightpad]
    split
    · rename_i hin
      have hplace := hinside (i - offset.toNat) (by omega)
      rw [Nat.add_sub_cancel' hin.1] at hplace
      rw [hplace, List.getD_eq_getElem _ _ (by omega)]
      rfl
    · rename_i hout
      rw [houtside i (by omega), h.get]
  · simp only [Buffer.put, Bytes.size_overlay]
    exact hextended.capacity

theorem read_eq (h : Holds limit b bytes) (offset : UInt64) (n : Nat) :
    b.read offset n = ((bytes.drop offset.toNat).take n).rightpad n 0 := by
  have hlength : (b.read offset n).length = (((bytes.drop offset.toNat).take n).rightpad n 0).length := by
    rw [List.length_rightpad, read, List.length_map, List.length_range, List.length_take]
    omega
  apply List.ext_getElem hlength
  intro i hi hi'
  have hin : i < n := by simpa [read] using hi
  rw [← List.getD_eq_getElem _ 0 hi', Bytes.getD_rightpad, Bytes.getD_take, if_pos hin,
    List.getD_eq_getElem?_getD, List.getElem?_drop, ← List.getD_eq_getElem?_getD, ← h.get]
  simp only [read, List.getElem_map, List.getElem_range]

/-- An operation answers on a buffer as on the bytes that it holds, and leaves those that it leaves of
    them. -/
theorem act (h : Holds limit b bytes) {op : Operation} (hfits : op.Fits) :
    (b.act op).1 = (op.onBytes limit bytes).1 ∧ Holds limit (b.act op).2 (op.onBytes limit bytes).2 := by
  cases op with
  | grow size =>
      simp only [Buffer.act, Buffer.grow, h.growFault?_eq, Operation.onBytes]
      by_cases hbeyond : limit < size
      · simp only [if_pos hbeyond]
        exact ⟨trivial, h⟩
      · simp only [if_neg hbeyond]
        exact ⟨trivial, h.extend (UInt64.not_lt.1 hbeyond)⟩
  | truncate size => exact ⟨rfl, h.truncate size⟩
  | write offset others =>
      simp only [Buffer.act, Buffer.write, h.writeFault?_eq hfits, Operation.onBytes]
      by_cases hbeyond : limit.toNat < offset.toNat + others.length
      · simp only [if_pos hbeyond]
        exact ⟨trivial, h⟩
      · simp only [if_neg hbeyond]
        exact ⟨trivial, h.put (Nat.not_lt.1 hbeyond)⟩
  | read offset n => exact ⟨congrArg Except.ok (h.read_eq offset n), h⟩

end Holds

/-! ### Runs of operations -/

/-- An empty buffer behaves over any run of operations as an empty list of bytes does. It holds the bytes of
    the list after every run, and so between any two operations: there is storage for them within the
    limit, and the storage behind them is zero. -/
theorem answers_eq_bytes (limit : UInt64) (ops : List Operation) (h : ∀ op ∈ ops, op.Fits) :
    let run := answers act { limit := limit } ops
    let expected := answers (Operation.onBytes limit) [] ops
    run.1 = expected.1 ∧ run.2.toList = expected.2 ∧ run.2.size.toNat = expected.2.length ∧
      run.2.size.toNat ≤ run.2.data.size ∧ run.2.data.size ≤ limit.toNat ∧
      ∀ i, run.2.size.toNat ≤ i → Bytes.byteAt run.2.data i = 0 := by
  have hstep (b : Buffer) (bytes : List UInt8) (op : Operation) (hheld : Holds limit b bytes)
      (hfits : op.Fits) : (b.act op).1 = (op.onBytes limit bytes).1 ∧
        Holds limit (b.act op).2 (op.onBytes limit bytes).2 := hheld.act hfits
  obtain ⟨hanswers, hholds⟩ := answers_related hstep (holds_empty limit) h
  exact ⟨hanswers, hholds.toList_eq, hholds.length, hholds.sound.stored, hholds.capacity,
    hholds.sound.clear⟩

/-- A buffer that grows past its first storage, and again into storage that it released. -/
def regrownWithin : List Operation :=
  [.write 10 [1, 2, 3], .read 9 6, .grow 600, .grow 1001, .truncate 11, .grow 13, .read 10 4]

theorem answers_eq_bytes_regrownWithin : (∀ op ∈ regrownWithin, op.Fits) ∧
    (answers act { limit := 1000 } regrownWithin).1 =
      [.ok [], .ok [0, 1, 2, 3, 0, 0], .ok [], .error (.bufferLimit 1001 1000), .ok [], .ok [],
        .ok [1, 0, 0, 0]] ∧
    (answers act { limit := 1000 } regrownWithin).2.toList =
      [0, 0, 0, 0, 0, 0, 0, 0, 0, 0, 1, 0, 0] := by
  have hfits : ∀ op ∈ regrownWithin, op.Fits := by decide
  obtain ⟨hanswers, hbytes, -⟩ := answers_eq_bytes 1000 regrownWithin hfits
  refine ⟨hfits, hanswers.trans ?_, hbytes.trans ?_⟩
  · decide +kernel
  · decide +kernel

end Buffer

end VectorRisc
