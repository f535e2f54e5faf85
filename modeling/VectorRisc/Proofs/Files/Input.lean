/-
Module: VectorRisc.Proofs.Files.Input
Layer: Proofs
Purpose: What is read from the console and from files. A byte is the first one that is left, however much
  of the stream is held, a line is what is left through the first line feed, and no read gives more bytes
  than it was asked for.
Imports: Mathlib.Tactic, VectorRisc.Files.Basic, VectorRisc.Proofs.Bytes
Trusted boundary: none
Main exports: Input.readByte_cases, Input.throughFeed, Input.readLine_eq, Input.length_read_le,
  FileSystem.Bounded, Files.length_read_le
Open obligations: none
-/
import Mathlib.Tactic
import VectorRisc.Files.Basic
import VectorRisc.Proofs.Bytes

namespace VectorRisc

/-! ### The console -/

namespace Input

theorem length_pull_le (room : Nat) (stream : List Piece) : (pull room stream).1.length ≤ room := by
  cases stream with
  | nil => exact Nat.zero_le room
  | cons piece later => exact List.length_take_le room _

theorem length_read_le (i : Input) (n : Nat) : (i.read n).1.length ≤ n := by
  rw [read]
  split
  · exact Nat.zero_le n
  · split
    · exact length_pull_le n _
    · exact List.length_take_le n _

/-- Bytes through the first line feed, or all of them if there is none. -/
def throughFeed : List UInt8 → List UInt8
  | [] => []
  | b :: rest => if b = ascii '\n' then [b] else b :: throughFeed rest

theorem length_throughFeed_le (bytes : List UInt8) : (throughFeed bytes).length ≤ bytes.length := by
  induction bytes with
  | nil => exact Nat.le_refl 0
  | cons b rest ih =>
      rw [throughFeed]
      split
      · simp
      · simpa using ih

theorem rest_ready (i : Input) : i.ready.rest = i.rest := by
  rw [ready]
  split
  · exact rest_fill i
  · rfl

theorem eq_nil_of_pull {room : Nat} (hroom : 0 < room) {stream : List Piece}
    (h : (pull room stream).1 = []) : stream = [] :=
  Decidable.byContradiction fun hstream => pull_ne_nil hroom hstream h

/-- Nothing is held only if nothing is left. -/
theorem rest_eq_nil_of_ready {i : Input} (h : i.ready.held = []) : i.rest = [] := by
  rw [ready] at h
  split at h
  · rename_i hempty
    have hnone : i.held = [] := by simpa using hempty
    rw [fill, hnone] at h
    have hstream : i.stream = [] := eq_nil_of_pull (by decide) h
    rw [rest, hnone, hstream]
    rfl
  · rename_i hsome
    simp [h] at hsome

/-- A byte that is read is the first one that is left, however much is held. -/
theorem readByte_cases (i : Input) :
    (∃ j, i.readByte = (none, j) ∧ i.rest = []) ∨
      ∃ b j, i.readByte = (some b, j) ∧ i.rest = b :: j.rest := by
  have hrest := rest_ready i
  cases hheld : i.ready.held with
  | nil =>
      exact .inl ⟨i.ready, by simp [readByte, hheld], rest_eq_nil_of_ready hheld⟩
  | cons b held =>
      refine .inr ⟨b, { i.ready with held := held }, by simp [readByte, hheld], ?_⟩
      rw [← hrest]
      simp [rest, hheld]

theorem lineFrom_eq (limit : Nat) (sofar : List UInt8) (i : Input) :
    (lineFrom limit sofar i).1 = sofar.reverse ++ throughFeed (i.rest.take limit) := by
  induction limit generalizing sofar i with
  | zero => simp [lineFrom, throughFeed]
  | succ limit ih =>
      rw [lineFrom]
      rcases readByte_cases i with ⟨j, hread, hrest⟩ | ⟨b, j, hread, hrest⟩
      · simp [hread, hrest, throughFeed]
      · simp only [hread, hrest, List.take_succ_cons, throughFeed]
        split
        · simp
        · simp [ih]

/-- A line is what is left of the input, through the first line feed and as far as it may reach. -/
theorem readLine_eq (i : Input) (limit : Nat) :
    (i.readLine limit).1.getD [] = throughFeed (i.rest.take limit) := by
  have hline : (lineFrom limit [] i).1 = throughFeed (i.rest.take limit) := lineFrom_eq limit [] i
  simp only [readLine, hline]
  split
  · rename_i hempty
    simp only [Bool.and_eq_true, List.isEmpty_iff] at hempty
    rw [Option.getD_none, hempty.1]
  · rfl

end Input

/-! ### Files -/

/-- The host never reads more bytes than it is asked for. -/
def FileSystem.Bounded (σ : Type) [FileSystem σ] : Prop :=
  ∀ (host : σ) (handle n : Nat) (bytes : List UInt8),
    (FileSystem.readFile host handle n).1 = .ok bytes → bytes.length ≤ n

theorem Disk.bounded : FileSystem.Bounded Disk := by
  intro d handle n bytes h
  have hread : (d.readFile handle n).1 = .ok bytes := h
  rw [Disk.readFile] at hread
  split at hread
  · cases hread
  · cases hread
    rw [Bytes.length_window]
    exact Nat.min_le_left _ _

/-- No descriptor gives more bytes than it is asked for. -/
theorem Files.length_read_le {σ : Type} [FileSystem σ] (hhost : FileSystem.Bounded σ) {f : Files σ}
    {fd : UInt64} {n : Nat} {bytes : List UInt8} (h : (f.read fd n).1 = .ok bytes) : bytes.length ≤ n := by
  rw [read] at h
  split at h
  · cases h
  · split at h
    · cases h
    · split at h
      · rename_i handle _
        simp only at h
        cases hread : (FileSystem.readFile f.host handle n).1 with
        | error cause =>
            rw [hread] at h
            cases h
        | ok found =>
            rw [hread] at h
            cases h
            exact hhost _ _ _ _ hread
      · cases h
        exact Input.length_read_le _ n
      · cases h

end VectorRisc
