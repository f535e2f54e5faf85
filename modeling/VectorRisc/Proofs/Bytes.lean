/-
Module: VectorRisc.Proofs.Bytes
Layer: Proofs
Purpose: The laws of little-endian numbers and of byte images. A number below the bound of its width is
  read back as it was written, and an image is known by its size and by its bytes, which every operation
  on images is described by.
Imports: Mathlib.Tactic, VectorRisc.Bytes
Trusted boundary: none
Main exports: Bytes.toNat_ofNat, Bytes.ofNat_toNat, Bytes.toNat_lt, Bytes.window_eq, Bytes.wordsAt,
  Bytes.wordsAt_append_left, Bytes.wordsAt_written
Open obligations: none
-/
import Mathlib.Tactic
import VectorRisc.Bytes

namespace VectorRisc

namespace Bytes

/-! ### Numbers -/

@[simp] theorem length_ofNat (width n : Nat) : (ofNat width n).length = width := by
  induction width generalizing n with
  | zero => rfl
  | succ width ih => simp [ofNat, ih]

/-- The bytes of a number give back its low part. -/
theorem toNat_ofNat (width n : Nat) : toNat (ofNat width n) = n % 256 ^ width := by
  induction width generalizing n with
  | zero => simp [ofNat, toNat, Nat.mod_one]
  | succ width ih =>
      have hlow : (UInt8.ofNat n).toNat = n % 256 := UInt8.toNat_ofNat'
      rw [ofNat, toNat, ih, hlow, pow_succ', Nat.mod_mul]

/-- A number that fits its width is read back as it was written. -/
theorem toNat_ofNat_of_lt {width n : Nat} (h : n < 256 ^ width) : toNat (ofNat width n) = n := by
  rw [toNat_ofNat, Nat.mod_eq_of_lt h]

@[simp] theorem toNat_ofNat_uint64 (x : UInt64) : toNat (ofNat 8 x.toNat) = x.toNat :=
  toNat_ofNat_of_lt x.toNat_lt

@[simp] theorem toNat_ofNat_uint32 (x : UInt32) : toNat (ofNat 4 x.toNat) = x.toNat :=
  toNat_ofNat_of_lt x.toNat_lt

@[simp] theorem toNat_ofNat_uint16 (x : UInt16) : toNat (ofNat 2 x.toNat) = x.toNat :=
  toNat_ofNat_of_lt x.toNat_lt

/-- Bytes stand for a number below the bound of their width. -/
theorem toNat_lt (bytes : List UInt8) : toNat bytes < 256 ^ bytes.length := by
  induction bytes with
  | nil => simp [toNat]
  | cons b rest ih =>
      have hb : b.toNat < 256 := b.toNat_lt
      rw [toNat, List.length_cons, pow_succ]
      omega

/-- Bytes are those of the number they stand for. -/
theorem ofNat_toNat (bytes : List UInt8) : ofNat bytes.length (toNat bytes) = bytes := by
  induction bytes with
  | nil => rfl
  | cons b rest ih =>
      have hb : b.toNat < 256 := b.toNat_lt
      have hlow : UInt8.ofNat (b.toNat + 256 * toNat rest) = b := by
        apply UInt8.toNat_inj.1
        rw [UInt8.toNat_ofNat']
        omega
      have hhigh : (b.toNat + 256 * toNat rest) / 256 = toNat rest := by omega
      rw [toNat, List.length_cons, ofNat, hlow, hhigh, ih]

/-! ### Images as lists -/

@[simp] theorem toList_ofList (bytes : List UInt8) : toList (ofList bytes) = bytes := rfl

@[simp] theorem ofList_toList (image : ByteArray) : ofList (toList image) = image := rfl

@[simp] theorem size_ofList (bytes : List UInt8) : (ofList bytes).size = bytes.length := rfl

@[simp] theorem length_toList (image : ByteArray) : (toList image).length = image.size := rfl

@[simp] theorem toList_append (a b : ByteArray) : toList (a ++ b) = toList a ++ toList b := by
  simp [toList]

theorem ofList_append (a b : List UInt8) : ofList (a ++ b) = ofList a ++ ofList b := by
  rw [← ofList_toList (ofList a ++ ofList b), toList_append, toList_ofList, toList_ofList]

/-- The size of an image that fits the address space is exact as a 64-bit value. -/
theorem toNat_size64 {image : ByteArray} (h : image.size < 2 ^ 64) :
    (size64 image).toNat = image.size := UInt64.toNat_ofNat_of_lt' h

/-- A byte of an image, within it. -/
theorem byteAt_of_lt {image : ByteArray} {i : Nat} (h : i < image.size) :
    byteAt image i = (toList image).get ⟨i, h⟩ := dif_pos h

theorem byteAt_of_le {image : ByteArray} {i : Nat} (h : image.size ≤ i) : byteAt image i = 0 :=
  dif_neg (Nat.not_lt.2 h)

/-- The bytes of an image and zeros after them. -/
theorem byteAt_eq_getD (image : ByteArray) (i : Nat) : byteAt image i = ((toList image)[i]?).getD 0 := by
  by_cases hi : i < image.size
  · have hlist : i < (toList image).length := hi
    rw [byteAt_of_lt hi, List.getElem?_eq_getElem hlist, Option.getD_some]
    rfl
  · have hlist : (toList image).length ≤ i := Nat.not_lt.1 hi
    rw [byteAt_of_le (Nat.not_lt.1 hi), List.getElem?_eq_none hlist, Option.getD_none]

/-! ### Zeros -/

theorem toList_zeros (n : Nat) : toList (zeros n) = List.replicate n 0 := by
  induction n using zeros.induct with
  | case1 =>
      rw [zeros]
      rfl
  | case2 n hn heven ih =>
      have hsum : n / 2 + n / 2 = n := by omega
      rw [zeros, if_neg hn, if_pos heven, toList_append, ih, List.replicate_append_replicate, hsum]
  | case3 n hn hodd ih =>
      have hsum : n / 2 + n / 2 + 1 = n := by omega
      have hpush : toList ((zeros (n / 2) ++ zeros (n / 2)).push 0) =
          toList (zeros (n / 2) ++ zeros (n / 2)) ++ [0] := Array.toList_push
      rw [zeros, if_neg hn, if_neg hodd, hpush, toList_append, ih, List.replicate_append_replicate,
        ← List.replicate_succ', hsum]

@[simp] theorem size_zeros (n : Nat) : (zeros n).size = n := by
  rw [← length_toList, toList_zeros, List.length_replicate]

@[simp] theorem byteAt_zeros (n i : Nat) : byteAt (zeros n) i = 0 := by
  by_cases hi : i < (zeros n).size
  · rw [byteAt_of_lt hi]
    simp only [List.get_eq_getElem, toList_zeros, List.getElem_replicate]
  · exact byteAt_of_le (Nat.not_lt.1 hi)

/-! ### Windows -/

@[simp] theorem length_window (image : ByteArray) (start n : Nat) : (window image start n).length = n := by
  simp [window]

/-- A window within an image is a part of its bytes. -/
theorem window_eq {image : ByteArray} {start n : Nat} (h : start + n ≤ image.size) :
    window image start n = ((toList image).drop start).take n := by
  apply List.ext_getElem
  · simp only [length_window, List.length_take, List.length_drop, length_toList]
    omega
  · intro i hi _
    have hin : start + i < image.size := by
      simp only [length_window] at hi
      omega
    simp only [window, List.getElem_map, List.getElem_range, byteAt_of_lt hin, List.getElem_take,
      List.getElem_drop]
    rfl

/-- A window of the front part of an image. -/
theorem window_append_left {a : ByteArray} {start n : Nat} (b : ByteArray) (h : start + n ≤ a.size) :
    window (a ++ b) start n = window a start n := by
  have hboth : start + n ≤ (a ++ b).size := by
    rw [ByteArray.size_append]
    omega
  rw [window_eq hboth, window_eq h, toList_append, List.drop_append_of_le_length (by simp; omega),
    List.take_append_of_le_length (by simp; omega)]

/-- The bytes between two parts of an image. -/
theorem window_middle (before bytes after : List UInt8) :
    window (ofList (before ++ (bytes ++ after))) before.length bytes.length = bytes := by
  rw [window_eq (by simp)]
  simp

/-! ### Words -/

/-- The word at an offset of an image. -/
def wordAt (image : ByteArray) (offset : Nat) : UInt32 := UInt32.ofNat (toNat (window image offset 4))

/-- The words of an image from an offset on. -/
def wordsAt (image : ByteArray) : (offset n : Nat) → List UInt32
  | _, 0 => []
  | offset, n + 1 => wordAt image offset :: wordsAt image (offset + 4) n

/-- A word of a stretch. -/
theorem getElem?_wordsAt {image : ByteArray} {offset n i : Nat} {w : UInt32}
    (h : (wordsAt image offset n)[i]? = some w) : i < n ∧ w = wordAt image (offset + 4 * i) := by
  induction n generalizing offset i with
  | zero => cases h
  | succ n ih =>
      cases i with
      | zero => exact ⟨Nat.succ_pos n, (Option.some.inj h).symm⟩
      | succ i =>
          obtain ⟨hi, hw⟩ := ih h
          refine ⟨by omega, ?_⟩
          rw [hw, Nat.mul_succ, Nat.add_assoc, Nat.add_comm 4]

theorem wordAt_append_left {a : ByteArray} {offset : Nat} (b : ByteArray) (h : offset + 4 ≤ a.size) :
    wordAt (a ++ b) offset = wordAt a offset := by
  rw [wordAt, wordAt, window_append_left b h]

/-- The words of the front part of an image. -/
theorem wordsAt_append_left {a : ByteArray} {offset n : Nat} (b : ByteArray)
    (h : offset + 4 * n ≤ a.size) : wordsAt (a ++ b) offset n = wordsAt a offset n := by
  induction n generalizing offset with
  | zero => rfl
  | succ n ih => rw [wordsAt, wordsAt, wordAt_append_left b (by omega), ih (by omega)]

theorem byteAt_append_left {a : ByteArray} {i : Nat} (b : ByteArray) (h : i < a.size) :
    byteAt (a ++ b) i = byteAt a i := by
  have hboth : i < (a ++ b).size := by
    rw [ByteArray.size_append]
    omega
  rw [byteAt_of_lt hboth, byteAt_of_lt h]
  simp only [List.get_eq_getElem, toList_append]
  exact List.getElem_append_left h

theorem byteAt_append_right (a b : ByteArray) (i : Nat) : byteAt (a ++ b) (a.size + i) = byteAt b i := by
  by_cases hi : i < b.size
  · have hboth : a.size + i < (a ++ b).size := by
      rw [ByteArray.size_append]
      omega
    rw [byteAt_of_lt hboth, byteAt_of_lt hi]
    simp only [List.get_eq_getElem, toList_append]
    rw [List.getElem_append_right (by simp)]
    simp
  · have hboth : (a ++ b).size ≤ a.size + i := by
      rw [ByteArray.size_append]
      omega
    rw [byteAt_of_le hboth, byteAt_of_le (by omega)]

/-- The words of the back part of an image. -/
theorem wordsAt_append_right (a b : ByteArray) (offset n : Nat) :
    wordsAt (a ++ b) (a.size + offset) n = wordsAt b offset n := by
  induction n generalizing offset with
  | zero => rfl
  | succ n ih =>
      have hword : wordAt (a ++ b) (a.size + offset) = wordAt b offset := by
        rw [wordAt, wordAt, window, window]
        refine congrArg _ (congrArg _ (List.map_congr_left fun i _ => ?_))
        rw [Nat.add_assoc, byteAt_append_right]
      rw [wordsAt, wordsAt, hword, Nat.add_assoc, ih]

/-- Words are read back from where they were written. -/
theorem wordsAt_written (before : List UInt8) (codes : List UInt32) (after : List UInt8) :
    wordsAt (ofList (before ++ (codes.flatMap (fun w => ofNat 4 w.toNat) ++ after))) before.length
      codes.length = codes := by
  induction codes generalizing before with
  | nil => rfl
  | cons w codes ih =>
      have hword : wordAt (ofList (before ++ ((w :: codes).flatMap (fun w => ofNat 4 w.toNat) ++ after)))
          before.length = w := by
        have hbytes := window_middle before (ofNat 4 w.toNat)
          (codes.flatMap (fun w => ofNat 4 w.toNat) ++ after)
        rw [length_ofNat] at hbytes
        rw [List.flatMap_cons, List.append_assoc, wordAt, hbytes, toNat_ofNat_uint32, UInt32.ofNat_toNat]
      have hrest := ih (before ++ ofNat 4 w.toNat)
      rw [List.length_append, length_ofNat] at hrest
      rw [List.length_cons, wordsAt, hword]
      rw [List.flatMap_cons, List.append_assoc, ← List.append_assoc before, hrest]

/-! ### Writing in place -/

@[simp] theorem size_set (image : ByteArray) (start : Nat) (b : UInt8) (h : start < image.size) :
    (image.set start b h).size = image.size := Array.size_set h

theorem byteAt_set (image : ByteArray) (start i : Nat) (b : UInt8) (h : start < image.size) :
    byteAt (image.set start b h) i = if i = start then b else byteAt image i := by
  by_cases hi : i < image.size
  · have hlist : toList (image.set start b h) = (toList image).set start b :=
      Array.toList_set image.data start b h
    have hset : i < (image.set start b h).size := by simpa using hi
    rw [byteAt_of_lt hset, byteAt_of_lt hi]
    simp only [List.get_eq_getElem, hlist, List.getElem_set, eq_comm]
  · have hne : i ≠ start := by omega
    rw [byteAt_of_le (by simpa using hi), byteAt_of_le (by simpa using hi), if_neg hne]

/-- One byte of an image changed, if it lies inside. -/
theorem byteAt_set_if (image : ByteArray) (start i : Nat) (b : UInt8) :
    byteAt (if h : start < image.size then image.set start b h else image) i =
      if i = start ∧ start < image.size then b else byteAt image i := by
  by_cases hstart : start < image.size
  · simp only [hstart, dite_true, and_true, byteAt_set]
  · simp [hstart]

@[simp] theorem size_overlay (image : ByteArray) (start : Nat) (bytes : List UInt8) :
    (overlay image start bytes).size = image.size := by
  induction bytes generalizing image start with
  | nil => rfl
  | cons b rest ih =>
      rw [overlay, ih]
      split
      · simp
      · rfl

@[simp] theorem size_clear (image : ByteArray) (start n : Nat) : (clear image start n).size = image.size := by
  induction n generalizing image start with
  | zero => rfl
  | succ n ih =>
      rw [clear, ih]
      split
      · simp
      · rfl

/-- What is cleared reads as zero, and the rest as before. -/
theorem byteAt_clear (image : ByteArray) (start n i : Nat) :
    byteAt (clear image start n) i = if start ≤ i ∧ i < start + n then 0 else byteAt image i := by
  induction n generalizing image start with
  | zero =>
      rw [clear, if_neg (by omega)]
  | succ n ih =>
      rw [clear, ih, byteAt_set_if]
      by_cases hfirst : i = start
      · subst hfirst
        rw [if_neg (by omega), if_pos (by omega : i ≤ i ∧ i < i + (n + 1))]
        by_cases hin : i < image.size
        · rw [if_pos ⟨rfl, hin⟩]
        · rw [if_neg (by omega), byteAt_of_le (by omega)]
      · rw [if_neg (by omega : ¬(i = start ∧ start < image.size))]
        split <;> split <;> first | rfl | omega

/-- What is written in place leaves the bytes elsewhere. -/
theorem byteAt_overlay_of_outside {image : ByteArray} {start i : Nat} {bytes : List UInt8}
    (h : i < start ∨ start + bytes.length ≤ i) : byteAt (overlay image start bytes) i = byteAt image i := by
  induction bytes generalizing image start with
  | nil => rfl
  | cons b rest ih =>
      have hne : ¬(i = start ∧ start < image.size) := by
        rw [List.length_cons] at h
        omega
      rw [overlay, ih (by rw [List.length_cons] at h; omega), byteAt_set_if, if_neg hne]

theorem byteAt_overlay_of_inside {image : ByteArray} {start i : Nat} {bytes : List UInt8}
    (hi : i < bytes.length) (h : start + bytes.length ≤ image.size) :
    byteAt (overlay image start bytes) (start + i) = bytes.get ⟨i, hi⟩ := by
  induction bytes generalizing image start i with
  | nil => cases hi
  | cons b rest ih =>
      rw [List.length_cons] at h
      rw [overlay]
      cases i with
      | zero =>
          rw [byteAt_overlay_of_outside (.inl (by omega)), byteAt_set_if, if_pos ⟨rfl, by omega⟩]
          rfl
      | succ i =>
          have hsize : start + 1 + rest.length ≤
              (if h : start < image.size then image.set start b h else image).size := by
            split
            · rw [size_set]
              omega
            · omega
          have hrest := ih (Nat.lt_of_succ_lt_succ hi) hsize
          rwa [Nat.add_right_comm] at hrest

theorem window_overlay_of_outside {image : ByteArray} {start offset n : Nat} {bytes : List UInt8}
    (h : offset + n ≤ start ∨ start + bytes.length ≤ offset) :
    window (overlay image start bytes) offset n = window image offset n := by
  refine List.map_congr_left fun i hi => byteAt_overlay_of_outside ?_
  have hlt := List.mem_range.1 hi
  omega

theorem window_overlay_self {image : ByteArray} {start : Nat} {bytes : List UInt8}
    (h : start + bytes.length ≤ image.size) :
    window (overlay image start bytes) start bytes.length = bytes := by
  apply List.ext_getElem
  · simp
  · intro i _ hi
    simp only [window, List.getElem_map, List.getElem_range]
    exact byteAt_overlay_of_inside hi h

/-- Words elsewhere stay when a word is written in place. -/
theorem wordsAt_overlay_of_outside {image : ByteArray} {start offset n : Nat} {bytes : List UInt8}
    (h : offset + 4 * n ≤ start ∨ start + bytes.length ≤ offset) :
    wordsAt (overlay image start bytes) offset n = wordsAt image offset n := by
  induction n generalizing offset with
  | zero => rfl
  | succ n ih =>
      have hword : wordAt (overlay image start bytes) offset = wordAt image offset := by
        rw [wordAt, wordAt, window_overlay_of_outside (by omega)]
      rw [wordsAt, wordsAt, hword, ih (by omega)]

/-- A word that is written in place is read back. -/
theorem wordAt_overlay_self {image : ByteArray} {start : Nat} (w : UInt32) (h : start + 4 ≤ image.size) :
    wordAt (overlay image start (ofNat 4 w.toNat)) start = w := by
  have hwindow : window (overlay image start (ofNat 4 w.toNat)) start (ofNat 4 w.toNat).length =
      ofNat 4 w.toNat := window_overlay_self (by rwa [length_ofNat])
  rw [length_ofNat] at hwindow
  rw [wordAt, hwindow, toNat_ofNat_uint32, UInt32.ofNat_toNat]

end Bytes

end VectorRisc
