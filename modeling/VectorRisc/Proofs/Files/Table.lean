/-
Module: VectorRisc.Proofs.Files.Table
Layer: Proofs
Purpose: The descriptors of a program after any operations on its files, whatever the host answers. Numbers
  go up from three and none is given twice before a reset, and the table holds just the streams of the
  console and the files that were opened and have not been closed since. What a descriptor may be used for
  follows from the flags that its file was opened with.
Imports: Mathlib.Tactic, VectorRisc.Files.Basic
Trusted boundary: none
Main exports: Files.Operation, Files.operated, Files.numbers, Files.Held, Files.Kept, Files.kept_operated,
  Files.table_by_history
Open obligations: none
-/
import Mathlib.Tactic
import VectorRisc.Files.Basic

namespace VectorRisc

namespace Files

/-- An operation on the files of a program. -/
inductive Operation where
  | openFile (path : Text) (flags permissions : UInt64)
  | close (fd : UInt64)
  | read (fd : UInt64) (n : Nat)
  | write (fd : UInt64) (bytes : List UInt8)
  | reset
deriving DecidableEq, Repr, Inhabited

/-- The operation asks for a file to be opened. -/
def Operation.opens : Operation → Bool
  | .openFile _ _ _ => true
  | _ => false

theorem mem_descriptors {σ : Type} {f : Files σ} {fd : UInt64} :
    fd ∈ f.descriptors ↔ f.isOpen fd = true := by
  rw [descriptors, List.mem_mergeSort, isOpen, find?, ← Bool.not_eq_false, Option.isSome_eq_false_iff,
    Option.isNone_iff_eq_none, List.lookup_eq_none_iff]
  simp

variable {σ : Type} [FileSystem σ]

/-- The files after an operation, whether it succeeds or fails. -/
def after (f : Files σ) : Operation → Files σ
  | .openFile path flags permissions => (f.openFile path flags permissions).2
  | .close fd => (f.close fd).2
  | .read fd n => (f.read fd n).2
  | .write fd bytes => (f.write fd bytes).2
  | .reset => f.reset

/-- The files after operations. -/
def operated (start : Files σ) (ops : List Operation) : Files σ := ops.foldl after start

theorem operated_concat (start : Files σ) (ops : List Operation) (op : Operation) :
    operated start (ops ++ [op]) = (operated start ops).after op := List.foldl_concat _ _ _ _

/-! ### What an operation does to the table -/

theorem lookup_without (fd closed : UInt64) (table : List (UInt64 × Descriptor)) :
    (without closed table).lookup fd = if fd = closed then none else table.lookup fd := by
  induction table with
  | nil => simp [without]
  | cons entry rest ih =>
      obtain ⟨number, d⟩ := entry
      have hrest : (rest.filter fun e => e.1 ≠ closed).lookup fd =
          if fd = closed then none else rest.lookup fd := ih
      rw [without, List.filter_cons]
      by_cases hfd : fd = number
      · subst hfd
        by_cases hclosed : fd = closed
        · rw [if_neg (by simp [hclosed]), hrest, if_pos hclosed, if_pos hclosed]
        · simp [hclosed]
      · have hother : (fd == number) = false := beq_false_of_ne hfd
        rw [List.lookup_cons, hother]
        dsimp only
        split
        · rw [List.lookup_cons, hother]
          exact hrest
        · exact hrest

/-- A descriptor that is closed is gone, even if the host fails to close its file. -/
theorem find?_close (f : Files σ) (closed fd : UInt64) :
    (f.close closed).2.find? fd = if fd = closed then none else f.find? fd := by
  rw [close]
  cases hfound : f.find? closed with
  | none =>
      dsimp only
      split
      · rename_i hfd
        rw [hfd, hfound]
      · rfl
  | some d =>
      dsimp only
      cases d.channel <;> exact lookup_without fd closed f.table

theorem close_next (f : Files σ) (closed : UInt64) : (f.close closed).2.next = f.next := by
  rw [close]
  cases f.find? closed with
  | none => rfl
  | some d =>
      dsimp only
      cases d.channel <;> rfl

/-- Reading leaves the table as it is. -/
theorem read_frame (f : Files σ) (fd : UInt64) (n : Nat) :
    (f.read fd n).2.table = f.table ∧ (f.read fd n).2.next = f.next := by
  rw [read]
  cases f.find? fd with
  | none => exact ⟨rfl, rfl⟩
  | some d =>
      dsimp only
      split
      · exact ⟨rfl, rfl⟩
      · cases d.channel <;> exact ⟨rfl, rfl⟩

/-- And so does writing. -/
theorem write_frame (f : Files σ) (fd : UInt64) (bytes : List UInt8) :
    (f.write fd bytes).2.table = f.table ∧ (f.write fd bytes).2.next = f.next := by
  rw [write]
  cases f.find? fd with
  | none => exact ⟨rfl, rfl⟩
  | some d =>
      dsimp only
      split
      · exact ⟨rfl, rfl⟩
      · cases d.channel <;> exact ⟨rfl, rfl⟩

/-! ### Opening -/

/-- The descriptor of a file that was opened. -/
def descriptorOf (path : Text) (mode : OpenMode) (handle : Nat) : Descriptor :=
  ⟨path, mode.read, mode.write, .file handle⟩

/-- The flags have a mode, with which the host opens the file under a handle. -/
def Grants (f : Files σ) (path : Text) (flags permissions : UInt64) (mode : OpenMode) (handle : Nat) : Prop :=
  OpenMode.ofFlags? flags = some mode ∧
    (FileSystem.openFile f.host path mode permissions).1 = .ok handle

theorem Grants.unique {f : Files σ} {path : Text} {flags permissions : UInt64} {mode mode' : OpenMode}
    {handle handle' : Nat} (h : f.Grants path flags permissions mode handle)
    (h' : f.Grants path flags permissions mode' handle') : mode = mode' ∧ handle = handle' := by
  obtain ⟨hmode, hhost⟩ := h
  obtain ⟨hmode', hhost'⟩ := h'
  obtain rfl := Option.some.inj (hmode.symm.trans hmode')
  exact ⟨rfl, Except.ok.inj (hhost.symm.trans hhost')⟩

/-- A file is opened under the next number if its flags mean something and the host opens it; otherwise
    nothing but the host may have changed. -/
theorem openFile_cases (f : Files σ) (path : Text) (flags permissions : UInt64) :
    (∃ mode handle host, f.Grants path flags permissions mode handle ∧
      f.openFile path flags permissions =
        (.ok f.next,
          { f with
            host := host
            table := (f.next, descriptorOf path mode handle) :: without f.next f.table
            next := f.next + 1 })) ∨
      (∀ mode handle, ¬ f.Grants path flags permissions mode handle) ∧
        ∃ e host, f.openFile path flags permissions = (.error e, { f with host := host }) := by
  rw [openFile]
  cases hmode : OpenMode.ofFlags? flags with
  | none =>
      right
      constructor
      · rintro mode handle ⟨hfound, -⟩
        rw [hmode] at hfound
        cases hfound
      · exact ⟨.badFlags, f.host, rfl⟩
  | some mode =>
      dsimp only
      rcases hhost : FileSystem.openFile f.host path mode permissions with ⟨result, host⟩
      cases result with
      | error cause =>
          right
          constructor
          · rintro mode' handle ⟨hfound, hok⟩
            obtain rfl := Option.some.inj (hmode.symm.trans hfound)
            rw [hhost] at hok
            cases hok
          · exact ⟨.host cause, host, rfl⟩
      | ok handle => exact .inl ⟨mode, handle, host, ⟨hmode, by rw [hhost]⟩, rfl⟩

/-- The number under which an operation opens a file, if it does. -/
def opened? (f : Files σ) : Operation → Option UInt64
  | .openFile path flags permissions => (f.openFile path flags permissions).1.toOption
  | _ => none

/-- The numbers under which operations open files, in order. -/
def numbers : Files σ → List Operation → List UInt64
  | _, [] => []
  | f, op :: rest => (f.opened? op).toList ++ numbers (f.after op) rest

/-- An operation that does not reset gives the next number, if it gives one, and the number after it is
    next then. -/
theorem opened?_cases (f : Files σ) {op : Operation} (hop : op ≠ .reset) :
    (f.opened? op = some f.next ∧ (f.after op).next = f.next + 1 ∧ op.opens = true) ∨
      f.opened? op = none ∧ (f.after op).next = f.next := by
  cases op with
  | openFile path flags permissions =>
      rcases f.openFile_cases path flags permissions with ⟨_, _, _, -, hopen⟩ | ⟨-, _, _, hopen⟩
      · left
        simp [opened?, after, hopen, Operation.opens, Except.toOption]
      · right
        simp [opened?, after, hopen, Except.toOption]
  | close fd => exact .inr ⟨rfl, close_next f fd⟩
  | read fd n => exact .inr ⟨rfl, (read_frame f fd n).2⟩
  | write fd bytes => exact .inr ⟨rfl, (write_frame f fd bytes).2⟩
  | reset => exact absurd rfl hop

/-- Without a reset the numbers go up one by one. -/
theorem numbers_ascend {f : Files σ} {ops : List Operation} (hops : Operation.reset ∉ ops)
    (hroom : f.next.toNat + ops.countP Operation.opens < 2 ^ 64) :
    (numbers f ops).map UInt64.toNat = List.range' f.next.toNat (numbers f ops).length := by
  induction ops generalizing f with
  | nil => rfl
  | cons op rest ih =>
      rw [List.mem_cons, not_or] at hops
      obtain ⟨hop, hrest⟩ := hops
      rw [List.countP_cons] at hroom
      rcases f.opened?_cases (Ne.symm hop) with ⟨hnumber, hnext, hopens⟩ | ⟨hnumber, hnext⟩
      · rw [hopens, if_pos rfl] at hroom
        have hsucc : (f.after op).next.toNat = f.next.toNat + 1 := by
          rw [hnext, UInt64.toNat_add, Nat.mod_eq_of_lt]
          · rfl
          · change f.next.toNat + 1 < 2 ^ 64
            omega
        have htail := ih hrest (f := f.after op) (by omega)
        rw [numbers, hnumber, Option.toList_some, List.singleton_append, List.map_cons, List.length_cons,
          List.range'_succ, htail, hsucc]
      · have htail := ih hrest (f := f.after op) (by rw [hnext]; omega)
        rw [numbers, hnumber, Option.toList_none, List.nil_append, htail, hnext]

/-! ### What is open by the operations alone -/

/-- None of the operations closes the descriptor or resets the files. -/
def Spares (fd : UInt64) (ops : List Operation) : Prop := ∀ op ∈ ops, op ≠ .close fd ∧ op ≠ .reset

/-- The table starts anew behind the operations: there are none, or the last one is a reset. -/
def Anew (ops : List Operation) : Prop := ops = [] ∨ ∃ earlier, ops = earlier ++ [Operation.reset]

/-- The descriptor is a stream of the console that has not been closed since the table started anew. -/
inductive Streams (ops : List Operation) (fd : UInt64) : Prop where
  | since {before rest : List Operation} (hops : ops = before ++ rest) (hanew : Anew before)
      (hfd : fd < firstFile) (hspared : Spares fd rest)

/-- A file was opened under the number by its path and flags, with a mode and under a handle of the host;
    since then the number has not been closed, nor the table started anew. -/
inductive Opened (start : Files σ) (ops : List Operation) (fd : UInt64) (path : Text) (flags : UInt64)
    (mode : OpenMode) (handle : Nat) : Prop where
  | since {before rest : List Operation} {permissions : UInt64}
      (hops : ops = before ++ Operation.openFile path flags permissions :: rest)
      (hopen : ((operated start before).openFile path flags permissions).1 = .ok fd)
      (hgrants : (operated start before).Grants path flags permissions mode handle)
      (hspared : Spares fd rest)

/-- What a descriptor is if it is open by the operations. -/
inductive Held (start : Files σ) (ops : List Operation) (fd : UInt64) : Descriptor → Prop where
  | stream {d : Descriptor} (h : Streams ops fd) (hd : consoleTable.lookup fd = some d) :
      Held start ops fd d
  | file {path : Text} {flags : UInt64} {mode : OpenMode} {handle : Nat}
      (h : Opened start ops fd path flags mode handle) : Held start ops fd (descriptorOf path mode handle)

theorem firstFile_of_lookup {fd : UInt64} {d : Descriptor} (h : consoleTable.lookup fd = some d) :
    fd < firstFile := by
  have hmem : (fd, d) ∈ consoleTable := by
    obtain ⟨before, rest, htable, -⟩ := List.lookup_eq_some_iff.1 h
    rw [htable]
    simp
  simp only [consoleTable, List.mem_cons, Prod.mk.injEq, List.not_mem_nil, or_false] at hmem
  rcases hmem with ⟨rfl, -⟩ | ⟨rfl, -⟩ | ⟨rfl, -⟩ <;> decide

theorem eq_of_lt_firstFile {fd : UInt64} (h : fd < firstFile) :
    fd = standardInput ∨ fd = standardOutput ∨ fd = standardError := by
  have hfd : fd.toNat < 3 := h
  simp only [← UInt64.toNat_inj, standardInput, standardOutput, standardError]
  change fd.toNat = 0 ∨ fd.toNat = 1 ∨ fd.toNat = 2
  omega

theorem spares_concat {fd : UInt64} {ops : List Operation} {op : Operation} :
    Spares fd (ops ++ [op]) ↔ Spares fd ops ∧ op ≠ .close fd ∧ op ≠ .reset := by
  rw [Spares, Spares, List.forall_mem_append, List.forall_mem_singleton]

/-- The last operation stands in the second part of the operations, unless that part is empty. -/
theorem split_concat {ops before rest : List Operation} {op : Operation} (h : ops ++ [op] = before ++ rest) :
    (rest = [] ∧ before = ops ++ [op]) ∨ ∃ inner, rest = inner ++ [op] ∧ ops = before ++ inner := by
  rcases List.eq_nil_or_concat rest with rfl | ⟨inner, last, rfl⟩
  · left
    rw [List.append_nil] at h
    exact ⟨rfl, h.symm⟩
  · right
    rw [List.concat_eq_append, ← List.append_assoc] at h
    obtain ⟨hops, hlast⟩ := List.append_inj' h rfl
    obtain rfl : op = last := List.singleton_inj.1 hlast
    exact ⟨inner, List.concat_eq_append, hops⟩

theorem streams_concat {ops : List Operation} {op : Operation} {fd : UInt64} :
    Streams (ops ++ [op]) fd ↔
      op = .reset ∧ fd < firstFile ∨ Streams ops fd ∧ op ≠ .close fd ∧ op ≠ .reset := by
  constructor
  · rintro ⟨hops, hanew, hfd, hspared⟩
    rcases split_concat hops with ⟨rfl, rfl⟩ | ⟨inner, rfl, hbefore⟩
    · left
      rcases hanew with hnone | ⟨earlier, hreset⟩
      · simp at hnone
      · exact ⟨List.singleton_inj.1 (List.append_inj' hreset rfl).2, hfd⟩
    · right
      obtain ⟨hinner, hop⟩ := spares_concat.1 hspared
      exact ⟨.since hbefore hanew hfd hinner, hop⟩
  · rintro (⟨rfl, hfd⟩ | ⟨⟨hops, hanew, hfd, hspared⟩, hop⟩)
    · exact .since (List.append_nil _).symm (.inr ⟨ops, rfl⟩) hfd (by simp [Spares])
    · rename_i before rest
      have hall : ops ++ [op] = before ++ (rest ++ [op]) := by rw [hops, List.append_assoc]
      exact .since hall hanew hfd (spares_concat.2 ⟨hspared, hop⟩)

theorem opened_concat {start : Files σ} {ops : List Operation} {op : Operation} {fd : UInt64} {path : Text}
    {flags : UInt64} {mode : OpenMode} {handle : Nat} :
    Opened start (ops ++ [op]) fd path flags mode handle ↔
      (∃ permissions, op = .openFile path flags permissions ∧
        ((operated start ops).openFile path flags permissions).1 = .ok fd ∧
        (operated start ops).Grants path flags permissions mode handle) ∨
      Opened start ops fd path flags mode handle ∧ op ≠ .close fd ∧ op ≠ .reset := by
  constructor
  · rintro ⟨hops, hopen, hgrants, hspared⟩
    rename_i permissions
    rcases split_concat hops with ⟨hnone, -⟩ | ⟨inner, hinner, hbefore⟩
    · cases hnone
    · cases inner with
      | nil =>
          left
          obtain ⟨hop, -⟩ := List.cons.inj hinner
          rw [List.append_nil] at hbefore
          subst hbefore
          exact ⟨permissions, hop.symm, hopen, hgrants⟩
      | cons first later =>
          right
          rw [List.cons_append] at hinner
          obtain ⟨rfl, rfl⟩ := List.cons.inj hinner
          obtain ⟨hlater, hop⟩ := spares_concat.1 hspared
          exact ⟨.since hbefore hopen hgrants hlater, hop⟩
  · rintro (⟨permissions, rfl, hopen, hgrants⟩ | ⟨⟨hops, hopen, hgrants, hspared⟩, hop⟩)
    · exact .since rfl hopen hgrants (by simp [Spares])
    · rename_i before rest permissions
      have hall : ops ++ [op] = before ++ Operation.openFile path flags permissions :: (rest ++ [op]) := by
        rw [hops, List.append_assoc, List.cons_append]
      exact .since hall hopen hgrants (spares_concat.2 ⟨hspared, hop⟩)

/-- What is open after one operation more: the console behind a reset, a file that is opened now, or what was
    open and is not closed. -/
theorem held_concat {start : Files σ} {ops : List Operation} {op : Operation} {fd : UInt64} {d : Descriptor} :
    Held start (ops ++ [op]) fd d ↔
      (op = .reset ∧ consoleTable.lookup fd = some d) ∨
      (∃ path flags permissions mode handle, op = .openFile path flags permissions ∧
        ((operated start ops).openFile path flags permissions).1 = .ok fd ∧
        (operated start ops).Grants path flags permissions mode handle ∧ d = descriptorOf path mode handle) ∨
      Held start ops fd d ∧ op ≠ .close fd ∧ op ≠ .reset := by
  constructor
  · rintro (⟨h, hd⟩ | ⟨h⟩)
    · rcases streams_concat.1 h with ⟨hreset, -⟩ | ⟨hbefore, hop⟩
      · exact .inl ⟨hreset, hd⟩
      · exact .inr (.inr ⟨.stream hbefore hd, hop⟩)
    · rcases opened_concat.1 h with ⟨permissions, hop, hopen, hgrants⟩ | ⟨hbefore, hop⟩
      · exact .inr (.inl ⟨_, _, permissions, _, _, hop, hopen, hgrants, rfl⟩)
      · exact .inr (.inr ⟨.file hbefore, hop⟩)
  · rintro (⟨hreset, hd⟩ | ⟨path, flags, permissions, mode, handle, hop, hopen, hgrants, rfl⟩ | ⟨h, hop⟩)
    · exact .stream (streams_concat.2 (.inl ⟨hreset, firstFile_of_lookup hd⟩)) hd
    · exact .file (opened_concat.2 (.inl ⟨permissions, hop, hopen, hgrants⟩))
    · cases h with
      | stream h hd => exact .stream (streams_concat.2 (.inr ⟨h, hop⟩)) hd
      | file h => exact .file (opened_concat.2 (.inr ⟨h, hop⟩))

/-! ### Runs -/

/-- The table after operations is what they say, and the next number is above all that are open. -/
structure Kept (start : Files σ) (ops : List Operation) : Prop where
  next_le : (operated start ops).next.toNat ≤ 3 + ops.countP Operation.opens
  below : ∀ {fd : UInt64} {d : Descriptor}, (operated start ops).find? fd = some d →
    fd < (operated start ops).next
  held : ∀ {fd : UInt64} {d : Descriptor}, (operated start ops).find? fd = some d ↔ Held start ops fd d

theorem kept_nil (console : Console) (host : σ) : Kept (fresh console host) [] where
  next_le := Nat.le_refl 3
  below := firstFile_of_lookup
  held := by
    intro fd d
    constructor
    · intro hfound
      exact .stream (.since rfl (.inl rfl) (firstFile_of_lookup hfound) (by simp [Spares])) hfound
    · rintro (⟨-, hd⟩ | ⟨⟨hops⟩⟩)
      · exact hd
      · simp at hops

/-- An operation that leaves the table as it is. -/
theorem Kept.concat_of_same {start : Files σ} {ops : List Operation} {op : Operation} (h : Kept start ops)
    (htable : ((operated start ops).after op).table = (operated start ops).table)
    (hnext : ((operated start ops).after op).next = (operated start ops).next)
    (hop : ∀ fd, (operated start ops).find? fd ≠ none → op ≠ .close fd) (hreset : op ≠ .reset)
    (hopen : ∀ path flags permissions fd, op = .openFile path flags permissions →
      ((operated start ops).openFile path flags permissions).1 ≠ .ok fd) : Kept start (ops ++ [op]) := by
  have hfind (fd : UInt64) : (operated start (ops ++ [op])).find? fd = (operated start ops).find? fd := by
    rw [operated_concat, find?, htable, find?]
  constructor
  · rw [operated_concat, hnext, List.countP_append]
    exact h.next_le.trans (by omega)
  · intro fd d hfound
    rw [hfind] at hfound
    rw [operated_concat, hnext]
    exact h.below hfound
  · intro fd d
    rw [hfind, held_concat, h.held]
    constructor
    · intro hheld
      have hfound := h.held.2 hheld
      exact .inr (.inr ⟨hheld, hop fd (by simp [hfound]), hreset⟩)
    · rintro (⟨hop, -⟩ | ⟨_, _, _, _, _, hnow, hok, -⟩ | ⟨hheld, -⟩)
      · exact absurd hop hreset
      · exact absurd hok (hopen _ _ _ _ hnow)
      · exact hheld

theorem Kept.concat_openFile {start : Files σ} {ops : List Operation} (h : Kept start ops) (path : Text)
    (flags permissions : UInt64) (hroom : ops.countP Operation.opens + 1 < 2 ^ 64 - 3) :
    Kept start (ops ++ [Operation.openFile path flags permissions]) := by
  rcases (operated start ops).openFile_cases path flags permissions with
    ⟨mode, handle, host, hgrants, hopen⟩ | ⟨-, e, host, hopen⟩
  · have hafter : operated start (ops ++ [Operation.openFile path flags permissions]) =
        ((operated start ops).openFile path flags permissions).2 := operated_concat _ _ _
    have hnext : ((operated start ops).next + 1).toNat = (operated start ops).next.toNat + 1 := by
      have hle := h.next_le
      rw [UInt64.toNat_add, Nat.mod_eq_of_lt]
      · rfl
      · change (operated start ops).next.toNat + 1 < 2 ^ 64
        omega
    have hfind (fd : UInt64) :
        (operated start (ops ++ [Operation.openFile path flags permissions])).find? fd =
        if fd = (operated start ops).next then some (descriptorOf path mode handle)
        else (operated start ops).find? fd := by
      rw [hafter, hopen, find?, List.lookup_cons]
      by_cases hfd : fd = (operated start ops).next
      · simp [hfd]
      · rw [beq_false_of_ne hfd, if_neg hfd]
        exact (lookup_without _ _ _).trans (if_neg hfd)
    constructor
    · rw [hafter, hopen, List.countP_append]
      dsimp only
      rw [hnext]
      exact Nat.succ_le_succ h.next_le
    · intro fd d hfound
      rw [hafter, hopen, UInt64.lt_iff_toNat_lt]
      dsimp only
      rw [hnext]
      rw [hfind] at hfound
      split at hfound
      · rename_i hfd
        rw [hfd]
        exact Nat.lt_succ_self _
      · exact Nat.lt_succ_of_lt (UInt64.lt_iff_toNat_lt.1 (h.below hfound))
    · intro fd d
      rw [hfind, held_concat]
      constructor
      · intro hfound
        split at hfound
        · rename_i hfd
          cases hfound
          exact .inr (.inl ⟨path, flags, permissions, mode, handle, rfl, by rw [hopen, hfd], hgrants, rfl⟩)
        · exact .inr (.inr ⟨h.held.1 hfound, by simp, by simp⟩)
      · rintro (⟨hop, -⟩ | ⟨_, _, _, _, _, hop, hok, hthere, rfl⟩ | ⟨hheld, -⟩)
        · cases hop
        · cases hop
          obtain ⟨rfl, rfl⟩ := hgrants.unique hthere
          rw [hopen] at hok
          rw [if_pos (Except.ok.inj hok).symm]
        · -- a number that is open is below the next one
          have hfound := h.held.2 hheld
          rw [if_neg (UInt64.ne_of_lt (h.below hfound)), hfound]
  · refine h.concat_of_same ?_ ?_ (by simp) (by simp) ?_
    · rw [after, hopen]
    · rw [after, hopen]
    · intro _ _ _ fd hop
      cases hop
      rw [hopen]
      simp

theorem Kept.concat_close {start : Files σ} {ops : List Operation} (h : Kept start ops) (closed : UInt64) :
    Kept start (ops ++ [Operation.close closed]) := by
  have hafter : operated start (ops ++ [Operation.close closed]) = ((operated start ops).close closed).2 :=
    operated_concat _ _ _
  constructor
  · rw [hafter, close_next, List.countP_append]
    exact h.next_le.trans (by omega)
  · intro fd d hfound
    rw [hafter, find?_close] at hfound
    rw [hafter, close_next]
    split at hfound
    · cases hfound
    · exact h.below hfound
  · intro fd d
    rw [hafter, find?_close, held_concat]
    constructor
    · intro hfound
      split at hfound
      · cases hfound
      · rename_i hfd
        exact .inr (.inr ⟨h.held.1 hfound, by simpa using Ne.symm hfd, by simp⟩)
    · rintro (⟨hop, -⟩ | ⟨_, _, _, _, _, hop, -⟩ | ⟨hheld, hop, -⟩)
      · cases hop
      · cases hop
      · rw [if_neg (by rintro rfl; exact hop rfl)]
        exact h.held.2 hheld

theorem Kept.concat_reset {start : Files σ} {ops : List Operation} :
    Kept start (ops ++ [Operation.reset]) := by
  have hafter : operated start (ops ++ [Operation.reset]) = (operated start ops).reset :=
    operated_concat _ _ _
  have hfind (fd : UInt64) :
      (operated start (ops ++ [Operation.reset])).find? fd = consoleTable.lookup fd := by
    rw [hafter]
    rfl
  have hnext : (operated start (ops ++ [Operation.reset])).next = firstFile := by
    rw [hafter]
    rfl
  constructor
  · rw [hnext]
    exact Nat.le_add_right 3 _
  · intro fd d hfound
    rw [hfind] at hfound
    rw [hnext]
    exact firstFile_of_lookup hfound
  · intro fd d
    rw [hfind, held_concat]
    constructor
    · intro hfound
      exact .inl ⟨rfl, hfound⟩
    · rintro (⟨-, hfound⟩ | ⟨_, _, _, _, _, hop, -⟩ | ⟨-, -, hop⟩)
      · exact hfound
      · cases hop
      · exact absurd rfl hop

/-- The table is kept by every operation, as long as there are numbers left. -/
theorem Kept.concat {start : Files σ} {ops : List Operation} (h : Kept start ops) (op : Operation)
    (hroom : (ops ++ [op]).countP Operation.opens < 2 ^ 64 - 3) : Kept start (ops ++ [op]) := by
  cases op with
  | openFile path flags permissions =>
      rw [List.countP_append] at hroom
      exact h.concat_openFile path flags permissions hroom
  | close closed => exact h.concat_close closed
  | read fd n =>
      obtain ⟨htable, hnext⟩ := read_frame (operated start ops) fd n
      exact h.concat_of_same htable hnext (by simp) (by simp) (by simp)
  | write fd bytes =>
      obtain ⟨htable, hnext⟩ := write_frame (operated start ops) fd bytes
      exact h.concat_of_same htable hnext (by simp) (by simp) (by simp)
  | reset => exact .concat_reset

/-- And so by all operations from the start. -/
theorem kept_operated (console : Console) (host : σ) (ops : List Operation)
    (hroom : ops.countP Operation.opens < 2 ^ 64 - 3) : Kept (fresh console host) ops := by
  induction ops using List.reverseRecOn with
  | nil => exact kept_nil console host
  | append_singleton rest op ih =>
      have hrest : (rest ++ [op]).countP Operation.opens = rest.countP Operation.opens +
          [op].countP Operation.opens := List.countP_append
      exact (ih (by omega)).concat op hroom

/-! ### Rights -/

/-- Read from what a descriptor leads to. -/
def readChannel (f : Files σ) (channel : Channel) (n : Nat) : Except Error (List UInt8) × Files σ :=
  match channel with
  | .file handle =>
    let (result, host) := FileSystem.readFile f.host handle n
    (result.mapError Error.host, { f with host := host })
  | .input =>
    let (bytes, input) := f.console.input.read n
    (.ok bytes, { f with console := { f.console with input := input } })
  | _ => (.error .notReadable, f)

/-- Write to what a descriptor leads to. -/
def writeChannel (f : Files σ) (channel : Channel) (bytes : List UInt8) : Except Error Nat × Files σ :=
  match channel with
  | .file handle =>
    let (result, host) := FileSystem.writeFile f.host handle bytes
    (result.mapError Error.host, { f with host := host })
  | .output =>
    let (result, sink) := f.console.output.write bytes
    (result, { f with console := { f.console with output := sink } })
  | .error =>
    let (result, sink) := f.console.error.write bytes
    (result, { f with console := { f.console with error := sink } })
  | .input => (.error .notWritable, f)

section Rights

variable {f : Files σ} {fd : UInt64} {d : Descriptor}

theorem read_of_find? (h : f.find? fd = some d) (n : Nat) :
    f.read fd n = if d.readable then f.readChannel d.channel n else (.error .notReadable, f) := by
  rw [read, h]
  dsimp only
  cases d.readable with
  | false => rfl
  | true => cases d.channel <;> rfl

theorem write_of_find? (h : f.find? fd = some d) (bytes : List UInt8) :
    f.write fd bytes = if d.writable then f.writeChannel d.channel bytes else (.error .notWritable, f) := by
  rw [write, h]
  dsimp only
  cases d.writable with
  | false => rfl
  | true => cases d.channel <;> rfl

/-- Nothing can be done with a descriptor that is not open. -/
theorem fails_of_find? (h : f.find? fd = none) :
    f.close fd = (.error .badDescriptor, f) ∧ (∀ n, f.read fd n = (.error .badDescriptor, f)) ∧
      ∀ bytes, f.write fd bytes = (.error .badDescriptor, f) := by
  refine ⟨?_, fun n => ?_, fun bytes => ?_⟩
  · rw [close, h]
  · rw [read, h]
  · rw [write, h]

/-- The rights of a mode are those of its flags. -/
theorem rights_of_ofFlags? {flags : UInt64} {mode : OpenMode} (h : OpenMode.ofFlags? flags = some mode) :
    mode.read = decide (flags &&& OpenMode.directionMask ≠ OpenMode.writeOnly) ∧
      mode.write = decide (flags &&& OpenMode.directionMask ≠ OpenMode.readOnly) := by
  simp only [OpenMode.ofFlags?] at h
  split at h
  · cases h
  · cases h
    exact ⟨rfl, rfl⟩

variable {start : Files σ} {ops : List Operation}

/-- Just the streams that were not closed and the files that were opened are open. -/
theorem isOpen_iff (h : Kept start ops) : (operated start ops).isOpen fd = true ↔
    Streams ops fd ∨ ∃ path flags mode handle, Opened start ops fd path flags mode handle := by
  rw [isOpen, Option.isSome_iff_exists]
  constructor
  · rintro ⟨d, hfound⟩
    cases h.held.1 hfound with
    | stream hstream => exact .inl hstream
    | file hopened => exact .inr ⟨_, _, _, _, hopened⟩
  · rintro (hstream | ⟨path, flags, mode, handle, hopened⟩)
    · obtain ⟨-, -, hfd, -⟩ := id hstream
      rcases eq_of_lt_firstFile hfd with rfl | rfl | rfl <;> exact ⟨_, h.held.2 (.stream hstream rfl)⟩
    · exact ⟨_, h.held.2 (.file hopened)⟩

/-- What the streams of the console are good for. -/
theorem rights_of_streams (h : Kept start ops) (hstream : Streams ops fd) :
    (∀ n, (operated start ops).read fd n =
      if fd = standardInput then (operated start ops).readChannel .input n
      else (.error .notReadable, operated start ops)) ∧
    ∀ bytes, (operated start ops).write fd bytes =
      if fd = standardOutput then (operated start ops).writeChannel .output bytes
      else if fd = standardError then (operated start ops).writeChannel .error bytes
      else (.error .notWritable, operated start ops) := by
  obtain ⟨-, -, hfd, -⟩ := id hstream
  rcases eq_of_lt_firstFile hfd with rfl | rfl | rfl <;>
    · have hfound := h.held.2 (.stream hstream rfl)
      exact ⟨fun n => read_of_find? hfound n, fun bytes => write_of_find? hfound bytes⟩

/-- What a file that was opened is good for. -/
theorem rights_of_opened {path : Text} {flags : UInt64} {mode : OpenMode} {handle : Nat} (h : Kept start ops)
    (hopened : Opened start ops fd path flags mode handle) :
    (∀ n, (operated start ops).read fd n =
      if flags &&& OpenMode.directionMask = OpenMode.writeOnly
      then (.error .notReadable, operated start ops)
      else (operated start ops).readChannel (.file handle) n) ∧
    ∀ bytes, (operated start ops).write fd bytes =
      if flags &&& OpenMode.directionMask = OpenMode.readOnly
      then (.error .notWritable, operated start ops)
      else (operated start ops).writeChannel (.file handle) bytes := by
  have hfound := h.held.2 (.file hopened)
  obtain ⟨-, -, ⟨hmode, -⟩, -⟩ := hopened
  obtain ⟨hread, hwrite⟩ := rights_of_ofFlags? hmode
  constructor
  · intro n
    rw [read_of_find? hfound, descriptorOf, hread]
    simp only [ne_eq, decide_not, Bool.not_eq_true', decide_eq_false_iff_not, ite_not]
  · intro bytes
    rw [write_of_find? hfound, descriptorOf, hwrite]
    simp only [ne_eq, decide_not, Bool.not_eq_true', decide_eq_false_iff_not, ite_not]

end Rights

/-- The descriptors after any operations on fresh files, of which fewer open files than there are numbers.
    Since the table started anew, files were opened under three, four, five and so on, and no number was
    given twice. An opening succeeds if the flags have a mode and the host opens the file, and leaves the
    table alone if it fails. The open descriptors are the streams of the console and the files that were
    opened, as far as they have not been closed since; with any other, every operation fails and changes
    nothing. Reading reaches what a descriptor leads to unless it was opened for writing only, writing
    unless it was opened for reading only, and both fail without a change otherwise. -/
theorem table_by_history (console : Console) (host : σ) (ops : List Operation)
    (hroom : ops.countP Operation.opens < 2 ^ 64 - 3) :
    let start := fresh console host
    let f := operated start ops
    (∀ before since, ops = before ++ since → Anew before → Operation.reset ∉ since →
      (numbers (operated start before) since).map UInt64.toNat =
        List.range' 3 (numbers (operated start before) since).length ∧
      (numbers (operated start before) since).Nodup) ∧
    (∀ path flags permissions,
      ((f.openFile path flags permissions).1.isOk = true ↔
        ∃ mode handle, f.Grants path flags permissions mode handle) ∧
      ∀ e, (f.openFile path flags permissions).1 = .error e →
        { (f.openFile path flags permissions).2 with host := f.host } = f) ∧
    (∀ fd, (f.isOpen fd = true ↔
        Streams ops fd ∨ ∃ path flags mode handle, Opened start ops fd path flags mode handle) ∧
      (fd ∈ f.descriptors ↔ f.isOpen fd = true)) ∧
    (∀ fd, f.isOpen fd = false →
      f.close fd = (.error .badDescriptor, f) ∧ (∀ n, f.read fd n = (.error .badDescriptor, f)) ∧
        ∀ bytes, f.write fd bytes = (.error .badDescriptor, f)) ∧
    (∀ fd, Streams ops fd →
      (∀ n, f.read fd n =
        if fd = standardInput then f.readChannel .input n else (.error .notReadable, f)) ∧
      ∀ bytes, f.write fd bytes =
        if fd = standardOutput then f.writeChannel .output bytes
        else if fd = standardError then f.writeChannel .error bytes
        else (.error .notWritable, f)) ∧
    ∀ fd path flags mode handle, Opened start ops fd path flags mode handle →
      (∀ n, f.read fd n =
        if flags &&& OpenMode.directionMask = OpenMode.writeOnly then (.error .notReadable, f)
        else f.readChannel (.file handle) n) ∧
      ∀ bytes, f.write fd bytes =
        if flags &&& OpenMode.directionMask = OpenMode.readOnly then (.error .notWritable, f)
        else f.writeChannel (.file handle) bytes := by
  intro start f
  have hkept : Kept start ops := kept_operated console host ops hroom
  refine ⟨?_, ?_, ?_, ?_, ?_, ?_⟩
  · intro before since hops hanew hreset
    have hnext : (operated start before).next = firstFile := by
      rcases hanew with rfl | ⟨earlier, rfl⟩
      · rfl
      · rw [operated_concat]
        rfl
    have hthree : (operated start before).next.toNat = 3 := by
      rw [hnext]
      rfl
    have hascend := numbers_ascend (f := operated start before) hreset (by
      rw [hops, List.countP_append] at hroom
      omega)
    rw [hthree] at hascend
    constructor
    · exact hascend
    · refine List.Nodup.of_map UInt64.toNat ?_
      rw [hascend]
      exact List.nodup_range'
  · intro path flags permissions
    rcases f.openFile_cases path flags permissions with
      ⟨mode, handle, _, hgrants, hopen⟩ | ⟨hnone, _, _, hopen⟩
    · rw [hopen]
      exact ⟨iff_of_true rfl ⟨mode, handle, hgrants⟩, by simp⟩
    · rw [hopen]
      exact ⟨iff_of_false (by simp [Except.isOk, Except.toBool]) (by simpa using hnone), fun _ _ => rfl⟩
  · exact fun fd => ⟨isOpen_iff hkept, mem_descriptors⟩
  · intro fd hclosed
    refine fails_of_find? ?_
    simpa [isOpen] using hclosed
  · exact fun fd hstream => rights_of_streams hkept hstream
  · exact fun fd path flags mode handle hopened => rights_of_opened hkept hopened

/-- A new file is written under three and closed; for reading only it is opened again, under four. -/
theorem table_by_history_reopened :
    let path : Text := [ascii 'a']
    let ops : List Operation := [.openFile path 0x41 0x180, .close 3, .openFile path 0 0]
    let start := fresh {} ({} : Disk)
    let f := operated start ops
    ops.countP Operation.opens < 2 ^ 64 - 3 ∧ (numbers start ops).map UInt64.toNat = [3, 4] ∧
      f.close 3 = (.error .badDescriptor, f) ∧ f.isOpen 4 = true ∧ f.read 4 8 = f.readChannel (.file 1) 8 ∧
      f.write 4 [33] = (.error .notWritable, f) := by
  intro path ops start f
  have hroom : ops.countP Operation.opens < 2 ^ 64 - 3 := by decide
  obtain ⟨hnumbers, -, hopen, hclosed, -, hrights⟩ := table_by_history {} ({} : Disk) ops hroom
  have hops : ops = ops.take 2 ++ [Operation.openFile path 0 0] := (List.take_append_drop 2 ops).symm
  have hfour : Opened start ops 4 path 0 (OpenMode.mk true false false false false) 1 :=
    .since hops rfl ⟨rfl, rfl⟩ (by simp [Spares])
  have hnew : f.isOpen 4 = true := (hopen 4).1.2 (.inr ⟨_, _, _, _, hfour⟩)
  have hold : f.isOpen 3 = false := rfl
  obtain ⟨hascend, -⟩ := hnumbers [] ops rfl (.inl rfl) (by decide)
  obtain ⟨hbad, -⟩ := hclosed 3 hold
  obtain ⟨hread, hwrite⟩ := hrights 4 _ _ _ _ hfour
  exact ⟨hroom, hascend, hbad, hnew, (hread 8).trans (if_neg (by decide)),
    (hwrite [33]).trans (if_pos (by decide))⟩

end Files

end VectorRisc
