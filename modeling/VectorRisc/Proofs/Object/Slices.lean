/-
Module: VectorRisc.Proofs.Object.Slices
Layer: Proofs
Purpose: What the decoder of object files looks at. A second decoder sees the file through slices alone,
  with offsets that wrap, and comes to an end only if every slice lies in the file. The two agree on every
  file but those whose program headers seem to end in it because their end wraps.
Imports: Mathlib.Tactic, VectorRisc.Proofs.Object.RoundTrip
Trusted boundary: none
Main exports: ObjectFile.Guarded, ObjectFile.Guarded.decode, ObjectFile.Guarded.Gives,
  ObjectFile.HeadersWrap, ObjectFile.decode_slices, ObjectFile.decode_not_always_inside
Open obligations: none
-/
import Mathlib.Tactic
import VectorRisc.Proofs.Object.RoundTrip

namespace VectorRisc

namespace ObjectFile

/-- A reading of bytes that comes to an end only if every slice that it asks for lies in the bytes. -/
abbrev Guarded := ExceptT Error Option

namespace Guarded

/-! ### The decoder by slices -/

/-- The bytes from one place up to another; there is nothing to read if they do not lie in the bytes. -/
def slice (bytes : List UInt8) (first stop : UInt64) : Guarded (List UInt8) :=
  ExceptT.mk <|
    if first.toNat ≤ stop.toNat ∧ stop.toNat ≤ bytes.length then
      some (.ok ((bytes.drop first.toNat).take (stop.toNat - first.toNat)))
    else none

/-- The first `n` bytes and the rest. -/
def take (n : UInt64) (bytes : List UInt8) : Guarded (List UInt8 × List UInt8) :=
  if UInt64.ofNat bytes.length < n then throw .truncated
  else do
    let head ← slice bytes 0 n
    let rest ← slice bytes n (UInt64.ofNat bytes.length)
    return (head, rest)

/-- The number in the first `width` bytes, and the rest. -/
def number (width : Nat) (bytes : List UInt8) : Guarded (Nat × List UInt8) := do
  let (head, rest) ← take (UInt64.ofNat width) bytes
  let digits ← slice head 0 (UInt64.ofNat width)
  return (Bytes.toNat digits, rest)

/-- The label at the front, and the rest. -/
def label (bytes : List UInt8) : Guarded (Text × List UInt8) := do
  let (length, rest) ← number 4 bytes
  take (UInt64.ofNat length) rest

/-- A relocation whose fields have been looked for. -/
def relocationOf : Option (Relocation × List UInt8) → Except Error (Relocation × List UInt8)
  | none => .error .truncated
  | some (entry, r) =>
    if RelocationKind.greatest < entry.kind.code then .error .relocationKind
    else if Scope.greatest < entry.scope.code then .error .scope
    else .ok (entry, r)

/-- A symbol whose fields have been looked for. -/
def symbolOf : Option (Symbol × List UInt8) → Except Error (Symbol × List UInt8)
  | none => .error .truncated
  | some (entry, r) =>
    if SymbolKind.greatest < entry.kind.code then .error .symbolKind
    else if Scope.greatest < entry.scope.code then .error .scope
    else .ok (entry, r)

/-- The relocation at the front, and the rest. -/
def relocation (bytes : List UInt8) : Guarded (Relocation × List UInt8) := do
  let (position, r) ← number 8 bytes
  let (label, r) ← label r
  let (kind, r) ← number 2 r
  let (scope, r) ← number 2 r
  ExceptT.mk (some (relocationOf
    (some (⟨.ofNat position, label, ⟨.ofNat kind⟩, ⟨.ofNat scope⟩⟩, r))))

/-- The symbol at the front, and the rest. -/
def symbol (bytes : List UInt8) : Guarded (Symbol × List UInt8) := do
  let (label, r) ← label bytes
  let (kind, r) ← number 2 r
  let (scope, r) ← number 2 r
  let (position, r) ← number 8 r
  ExceptT.mk (some (symbolOf
    (some (⟨label, ⟨.ofNat kind⟩, ⟨.ofNat scope⟩, .ofNat position⟩, r))))

section Table

variable {α : Type} (entry : List UInt8 → Guarded (α × List UInt8))

/-- The first `n` entries of a table. -/
def entries : (n : Nat) → List UInt8 → Guarded (List α)
  | 0, _ => return []
  | n + 1, bytes => do
    let (a, rest) ← entry bytes
    let more ← entries n rest
    return a :: more

/-- A table, with its count held against the bytes that are there. -/
def table (bytes : List UInt8) : Guarded (List α) := do
  let (count, rest) ← number 8 bytes
  if UInt64.ofNat rest.length / UInt64.ofNat entryMinimum < UInt64.ofNat count then throw .truncated
  else entries entry count rest

end Table

/-- The content that a program header points at. -/
def chunk (bytes : List UInt8) (index : Nat) (p : ProgramHeader) : Guarded (List UInt8) :=
  if UInt64.ofNat bytes.length < p.offset || UInt64.ofNat bytes.length - p.offset < p.fileSize then
    throw (.inHeader index p.kind .truncated)
  else slice bytes p.offset (p.offset + p.fileSize)

/-- The section of a segment. -/
def sectionAt (bytes : List UInt8) (index : Nat) (s : Segment) (p : ProgramHeader) : Guarded Section := do
  let content ← chunk bytes index p
  if p.kind ≠ HeaderKind.ofSegment (p.kind = .kernelStart) s || p.memSize < p.fileSize then
    throw (.inHeader index p.kind .header)
  else return { addr := p.addr, data := Bytes.ofList content, memSize := p.memSize }

/-- The table behind a program header. -/
def tableAt {α : Type} (entry : List UInt8 → Guarded (α × List UInt8)) (kind : HeaderKind)
    (bytes : List UInt8) (index : Nat) (p : ProgramHeader) : Guarded (List α) := do
  let content ← chunk bytes index p
  if p.kind ≠ kind then throw (.inHeader index p.kind .header)
  else ExceptT.adapt (.inHeader index p.kind) (table entry content)

/-- The object that some program headers describe. -/
def ofHeaders (bytes : List UInt8) (h : FileHeader) (headers : List ProgramHeader) :
    Guarded ObjectFile :=
  match headers with
  | p0 :: p1 :: p2 :: p3 :: tables => do
    let text ← sectionAt bytes 0 .text p0
    let data ← sectionAt bytes 1 .data p1
    let ktext ← sectionAt bytes 2 .ktext p2
    let kdata ← sectionAt bytes 3 .kdata p3
    let file : ObjectFile :=
      { kind := ⟨h.kind⟩, entry := h.entry, kernelStart := p2.kind = .kernelStart,
        sections := ⟨text, data, ktext, kdata⟩ }
    match tables with
    | p4 :: p5 :: _ => do
      let relocations ← tableAt relocation .relocations bytes 4 p4
      let symbols ← tableAt symbol .symbols bytes 5 p5
      return { file with relocations := relocations, symbols := symbols }
    | _ => return file
  | _ => throw .truncated

/-- The first `n` program headers in some bytes, each from its own bytes. -/
def headers : (n : Nat) → List UInt8 → Guarded (List ProgramHeader)
  | 0, _ => return []
  | n + 1, bytes => do
    let front ← slice bytes 0 (UInt64.ofNat programHeaderSize)
    let rest ← slice bytes (UInt64.ofNat programHeaderSize) (UInt64.ofNat bytes.length)
    let more ← headers n rest
    return .read front :: more

/-- The object file in some bytes, of which nothing is seen but slices. All sums of offsets wrap. -/
def decode (bytes : List UInt8) : Guarded ObjectFile :=
  if bytes.length < fileHeaderSize then throw .truncated
  else do
    let front ← slice bytes 0 (UInt64.ofNat fileHeaderSize)
    let h := FileHeader.read front
    let () ← ExceptT.mk (some h.check)
    let stop := h.headersAt + UInt64.ofNat (h.headerCount.toNat * programHeaderSize)
    if h.headersAt < UInt64.ofNat fileHeaderSize || UInt64.ofNat bytes.length < stop then
      throw .truncated
    else do
      let found ← slice bytes h.headersAt stop
      let headers ← headers h.headerCount.toNat found
      ofHeaders bytes h headers

/-! ### Readings that stay in the bytes -/

/-- The reading asks for no slice that leaves the bytes, and gives a result. -/
def Gives {α : Type} (x : Guarded α) (r : Except Error α) : Prop := x.run = some r

section Gives

variable {α β : Type}

theorem Gives.pure (a : α) : Gives (Pure.pure a) (.ok a) := rfl

theorem Gives.throw (e : Error) : Gives (throw e : Guarded α) (.error e) := rfl

theorem Gives.run_bind {x : Guarded α} {a : α} (hx : Gives x (.ok a)) (f : α → Guarded β) :
    (x >>= f).run = (f a).run := by
  have hrun : (x >>= f).run = x.run >>= fun r => ExceptT.bindCont f r := rfl
  rw [hrun, hx]
  rfl

theorem Gives.bind_ok {x : Guarded α} {a : α} {f : α → Guarded β} {r : Except Error β}
    (hx : Gives x (.ok a)) (hf : Gives (f a) r) : Gives (x >>= f) r :=
  (hx.run_bind f).trans hf

theorem Gives.bind_error {x : Guarded α} {e : Error} {f : α → Guarded β} (hx : Gives x (.error e)) :
    Gives (x >>= f) (.error e) := by
  have hrun : (x >>= f).run = x.run >>= fun r => ExceptT.bindCont f r := rfl
  rw [Gives, hrun, hx]
  rfl

/-- A reading stays in the bytes if both its parts do. -/
theorem Gives.bind {x : Guarded α} {r : Except Error α} {f : α → Guarded β} {g : α → Except Error β}
    (hx : Gives x r) (hf : ∀ a, r = .ok a → Gives (f a) (g a)) : Gives (x >>= f) (r >>= g) := by
  cases r with
  | error e => exact hx.bind_error
  | ok a => exact hx.bind_ok (hf a rfl)

end Gives

/-- A slice between two places that lie in the bytes, in this order. -/
theorem gives_slice {bytes : List UInt8} {first stop : UInt64} (hfirst : first.toNat ≤ stop.toNat)
    (hstop : stop.toNat ≤ bytes.length) :
    Gives (slice bytes first stop)
      (.ok ((bytes.drop first.toNat).take (stop.toNat - first.toNat))) :=
  if_pos ⟨hfirst, hstop⟩

/-- Nothing can be read once a slice ends before it starts. -/
theorem run_slice_backwards {β : Type} (bytes : List UInt8) {first stop : UInt64}
    (h : stop.toNat < first.toNat) (f : List UInt8 → Guarded β) :
    (slice bytes first stop >>= f).run = none := by
  have hslice : (slice bytes first stop).run = none := if_neg fun hin => Nat.not_lt.2 hin.1 h
  have hrun : (slice bytes first stop >>= f).run =
      (slice bytes first stop).run >>= fun r => ExceptT.bindCont f r := rfl
  rw [hrun, hslice]
  rfl

/-- The front of some bytes is a slice. -/
theorem gives_front {bytes : List UInt8} {stop : UInt64} (hstop : stop.toNat ≤ bytes.length) :
    Gives (slice bytes 0 stop) (.ok (bytes.take stop.toNat)) :=
  gives_slice (Nat.zero_le _) hstop

/-- The rest of some bytes is a slice. -/
theorem gives_rest {bytes : List UInt8} (hlen : bytes.length < 2 ^ 64) {first : UInt64}
    (hfirst : first.toNat ≤ bytes.length) :
    Gives (slice bytes first (UInt64.ofNat bytes.length)) (.ok (bytes.drop first.toNat)) := by
  have hsize : (UInt64.ofNat bytes.length).toNat = bytes.length := UInt64.toNat_ofNat_of_lt' hlen
  have hslice : Gives (slice bytes first (UInt64.ofNat bytes.length))
      (.ok ((bytes.drop first.toNat).take ((UInt64.ofNat bytes.length).toNat - first.toNat))) :=
    gives_slice (by omega) (by omega)
  rwa [hsize, List.take_of_length_le (by rw [List.length_drop])] at hslice

/-! ### Fields and tables -/

/-- A part that is missing makes the object truncated. -/
def orTruncated {α : Type} : Option α → Except Error α
  | none => .error .truncated
  | some a => .ok a

theorem gives_take {bytes : List UInt8} (hlen : bytes.length < 2 ^ 64) (n : UInt64) :
    Gives (take n bytes) (orTruncated (take? n.toNat bytes)) := by
  have hsize : (UInt64.ofNat bytes.length).toNat = bytes.length := UInt64.toNat_ofNat_of_lt' hlen
  simp only [take, take?, List.length_take]
  by_cases hshort : UInt64.ofNat bytes.length < n
  · rw [if_pos hshort]
    rw [UInt64.lt_iff_toNat_lt, hsize] at hshort
    rw [if_neg (by omega)]
    exact Gives.throw _
  · rw [if_neg hshort]
    rw [UInt64.lt_iff_toNat_lt, hsize, Nat.not_lt] at hshort
    rw [if_pos (by omega)]
    exact (gives_front hshort).bind_ok ((gives_rest hlen hshort).bind_ok (Gives.pure _))

theorem gives_number {bytes : List UInt8} (hlen : bytes.length < 2 ^ 64) (width : Nat)
    (hwidth : width < 2 ^ 64) : Gives (number width bytes) (orTruncated (number? width bytes)) := by
  have htake := gives_take hlen (UInt64.ofNat width)
  have hsize : (UInt64.ofNat width).toNat = width := UInt64.toNat_ofNat_of_lt' hwidth
  rw [hsize] at htake
  rw [number, number?]
  cases hfound : take? width bytes with
  | none =>
      rw [hfound] at htake
      exact htake.bind_error
  | some found =>
      obtain ⟨head, rest⟩ := found
      obtain ⟨hhead, -⟩ := take?_eq_some hfound
      rw [hfound] at htake
      have hdigits : Gives (slice head 0 (UInt64.ofNat width)) (.ok head) := by
        have hfront : Gives (slice head 0 (UInt64.ofNat width)) _ := gives_front (by omega)
        rwa [hsize, List.take_of_length_le (by omega)] at hfront
      exact htake.bind_ok (hdigits.bind_ok (Gives.pure _))

theorem gives_label {bytes : List UInt8} (hlen : bytes.length < 2 ^ 64) :
    Gives (label bytes) (orTruncated (label? bytes)) := by
  have hnumber := gives_number hlen 4 (by decide)
  rw [label, label?]
  cases hfound : number? 4 bytes with
  | none =>
      rw [hfound] at hnumber
      exact hnumber.bind_error
  | some found =>
      obtain ⟨length, rest⟩ := found
      obtain ⟨hlength, hbytes⟩ := number?_eq_some hfound
      have hfits : length < 2 ^ 64 := by omega
      have hrest : rest.length < 2 ^ 64 := by omega
      have htake := gives_take hrest (UInt64.ofNat length)
      rw [UInt64.toNat_ofNat_of_lt' hfits] at htake
      rw [hfound] at hnumber
      exact hnumber.bind_ok htake

/-- A part of an entry that stays in the bytes, and then the rest of the entry. -/
theorem Gives.bind_part {α β γ : Type} {x : Guarded α} {o : Option α} {f : α → Guarded β}
    {k : α → Option γ} {judge : Option γ → Except Error β} (hx : Gives x (orTruncated o))
    (hnone : judge none = .error .truncated) (hf : ∀ a, o = some a → Gives (f a) (judge (k a))) :
    Gives (x >>= f) (judge (o >>= k)) := by
  cases o with
  | none =>
      rw [Option.bind_eq_bind, Option.bind_none, hnone]
      exact hx.bind_error
  | some a => exact hx.bind_ok (hf a rfl)

theorem gives_relocation {bytes : List UInt8} (hlen : bytes.length < 2 ^ 64) :
    Gives (relocation bytes) (readRelocation bytes) := by
  have hread : readRelocation bytes = relocationOf (do
      let (position, r) ← number? 8 bytes
      let (label, r) ← label? r
      let (kind, r) ← number? 2 r
      let (scope, r) ← number? 2 r
      return (Relocation.mk (.ofNat position) label ⟨.ofNat kind⟩ ⟨.ofNat scope⟩, r)) := rfl
  rw [relocation, hread]
  refine (gives_number hlen 8 (by decide)).bind_part rfl ?_
  rintro ⟨position, r₁⟩ hposition
  obtain ⟨-, hlen₁⟩ := number?_eq_some hposition
  have hfits₁ : r₁.length < 2 ^ 64 := by omega
  refine (gives_label hfits₁).bind_part rfl ?_
  rintro ⟨label, r₂⟩ hlabel
  obtain ⟨-, hlen₂⟩ := label?_eq_some hlabel
  have hfits₂ : r₂.length < 2 ^ 64 := by omega
  refine (gives_number hfits₂ 2 (by decide)).bind_part rfl ?_
  rintro ⟨kind, r₃⟩ hkind
  obtain ⟨-, hlen₃⟩ := number?_eq_some hkind
  have hfits₃ : r₃.length < 2 ^ 64 := by omega
  refine (gives_number hfits₃ 2 (by decide)).bind_part rfl ?_
  rintro ⟨scope, r₄⟩ -
  rfl

theorem gives_symbol {bytes : List UInt8} (hlen : bytes.length < 2 ^ 64) :
    Gives (symbol bytes) (readSymbol bytes) := by
  have hread : readSymbol bytes = symbolOf (do
      let (label, r) ← label? bytes
      let (kind, r) ← number? 2 r
      let (scope, r) ← number? 2 r
      let (position, r) ← number? 8 r
      return (Symbol.mk label ⟨.ofNat kind⟩ ⟨.ofNat scope⟩ (.ofNat position), r)) := rfl
  rw [symbol, hread]
  refine (gives_label hlen).bind_part rfl ?_
  rintro ⟨label, r₁⟩ hlabel
  obtain ⟨-, hlen₁⟩ := label?_eq_some hlabel
  have hfits₁ : r₁.length < 2 ^ 64 := by omega
  refine (gives_number hfits₁ 2 (by decide)).bind_part rfl ?_
  rintro ⟨kind, r₂⟩ hkind
  obtain ⟨-, hlen₂⟩ := number?_eq_some hkind
  have hfits₂ : r₂.length < 2 ^ 64 := by omega
  refine (gives_number hfits₂ 2 (by decide)).bind_part rfl ?_
  rintro ⟨scope, r₃⟩ hscope
  obtain ⟨-, hlen₃⟩ := number?_eq_some hscope
  have hfits₃ : r₃.length < 2 ^ 64 := by omega
  refine (gives_number hfits₃ 8 (by decide)).bind_part rfl ?_
  rintro ⟨position, r₄⟩ -
  rfl

/-- What is needed of an entry to read a table: it is read through slices, from no more than there is. -/
structure Reads {α : Type} (entry : List UInt8 → Guarded (α × List UInt8))
    (read : List UInt8 → Except Error (α × List UInt8)) : Prop where
  gives : ∀ {bytes}, bytes.length < 2 ^ 64 → Gives (entry bytes) (read bytes)
  shorter : ∀ {bytes a rest}, read bytes = .ok (a, rest) → rest.length ≤ bytes.length

theorem reads_relocation : Reads relocation readRelocation where
  gives := gives_relocation
  shorter h := by
    have hlen := (readRelocation_eq_ok h).2
    omega

theorem reads_symbol : Reads symbol readSymbol where
  gives := gives_symbol
  shorter h := by
    have hlen := (readSymbol_eq_ok h).2
    omega

section Table

variable {α : Type} {entry : List UInt8 → Guarded (α × List UInt8)}
  {read : List UInt8 → Except Error (α × List UInt8)}

theorem Reads.entries (h : Reads entry read) (n : Nat) {bytes : List UInt8}
    (hlen : bytes.length < 2 ^ 64) : Gives (Guarded.entries entry n bytes) (readEntries read n bytes) := by
  induction n generalizing bytes with
  | zero => exact Gives.pure _
  | succ n ih =>
      have hentry := h.gives hlen
      rw [Guarded.entries, readEntries]
      cases hread : read bytes with
      | error e =>
          rw [hread] at hentry
          exact hentry.bind_error
      | ok found =>
          obtain ⟨a, rest⟩ := found
          have hshort := h.shorter hread
          rw [hread] at hentry
          have hmore := ih (show rest.length < 2 ^ 64 by omega)
          refine hentry.bind_ok ?_
          simp only
          cases hrest : readEntries read n rest with
          | error e =>
              rw [hrest] at hmore
              exact hmore.bind_error
          | ok more =>
              rw [hrest] at hmore
              exact hmore.bind_ok (Gives.pure _)

theorem Reads.table (h : Reads entry read) {bytes : List UInt8} (hlen : bytes.length < 2 ^ 64) :
    Gives (Guarded.table entry bytes) (readTable read bytes) := by
  have hnumber := gives_number hlen 8 (by decide)
  rw [Guarded.table, readTable]
  cases hfound : number? 8 bytes with
  | none =>
      rw [hfound] at hnumber
      exact hnumber.bind_error
  | some found =>
      obtain ⟨count, rest⟩ := found
      obtain ⟨hcount, hbytes⟩ := number?_eq_some hfound
      have hrest : rest.length < 2 ^ 64 := by omega
      have hmany : UInt64.ofNat rest.length / UInt64.ofNat entryMinimum < UInt64.ofNat count ↔
          rest.length / entryMinimum < count := by
        rw [UInt64.lt_iff_toNat_lt, UInt64.toNat_div, UInt64.toNat_ofNat_of_lt' hrest,
          UInt64.toNat_ofNat_of_lt' hcount]
        rfl
      rw [hfound] at hnumber
      refine hnumber.bind_ok ?_
      simp only [hmany]
      split
      · exact Gives.throw _
      · exact h.entries count hrest

end Table

/-! ### Whole files -/

/-- The content of a program header is a slice of the file: the check leaves no room for a sum that
    wraps. -/
theorem gives_chunk {bytes : List UInt8} (hlen : bytes.length < 2 ^ 64) (index : Nat)
    (p : ProgramHeader) :
    Gives (chunk bytes index p) (match chunk? bytes p with
      | none => .error (.inHeader index p.kind .truncated)
      | some content => .ok content) := by
  have hsize : (UInt64.ofNat bytes.length).toNat = bytes.length := UInt64.toNat_ofNat_of_lt' hlen
  have hoff := p.offset.toNat_lt
  have hcheck : (decide (UInt64.ofNat bytes.length < p.offset) ||
      decide (UInt64.ofNat bytes.length - p.offset < p.fileSize)) = true ↔
        ¬p.offset.toNat + p.fileSize.toNat ≤ bytes.length := by
    rw [Bool.or_eq_true, decide_eq_true_eq, decide_eq_true_eq, UInt64.lt_iff_toNat_lt,
      UInt64.lt_iff_toNat_lt, UInt64.toNat_sub, hsize]
    omega
  rw [chunk, chunk?]
  by_cases hinside : p.offset.toNat + p.fileSize.toNat ≤ bytes.length
  · have hstop : (p.offset + p.fileSize).toNat = p.offset.toNat + p.fileSize.toNat := by
      rw [UInt64.toNat_add]
      omega
    have hslice : Gives (slice bytes p.offset (p.offset + p.fileSize)) _ :=
      gives_slice (by omega) (by omega)
    rw [hstop, Nat.add_sub_cancel_left] at hslice
    rw [if_neg (fun h => hcheck.1 h hinside), if_pos hinside]
    exact hslice
  · rw [if_pos (hcheck.2 hinside), if_neg hinside]
    exact Gives.throw _

theorem gives_sectionAt {bytes : List UInt8} (hlen : bytes.length < 2 ^ 64) (index : Nat) (s : Segment)
    (p : ProgramHeader) : Gives (sectionAt bytes index s p) (readSection bytes index s p) := by
  have hchunk := gives_chunk hlen index p
  rw [sectionAt, readSection]
  cases hfound : chunk? bytes p with
  | none =>
      rw [hfound] at hchunk
      exact hchunk.bind_error
  | some content =>
      rw [hfound] at hchunk
      refine hchunk.bind_ok ?_
      simp only
      split
      · exact Gives.throw _
      · exact Gives.pure _

/-- What a program header points at is no longer than the file. -/
theorem length_chunk?_le {bytes content : List UInt8} {p : ProgramHeader}
    (h : chunk? bytes p = some content) : content.length ≤ bytes.length := by
  rw [chunk?] at h
  split at h
  · rw [← Option.some.inj h, List.length_take, List.length_drop]
    omega
  · cases h

theorem Reads.tableAt {α : Type} {entry : List UInt8 → Guarded (α × List UInt8)}
    {read : List UInt8 → Except Error (α × List UInt8)} (h : Reads entry read) (kind : HeaderKind)
    {bytes : List UInt8} (hlen : bytes.length < 2 ^ 64) (index : Nat) (p : ProgramHeader) :
    Gives (Guarded.tableAt entry kind bytes index p) (readTableAt read kind bytes index p) := by
  have hchunk := gives_chunk hlen index p
  rw [Guarded.tableAt, readTableAt]
  cases hfound : chunk? bytes p with
  | none =>
      rw [hfound] at hchunk
      exact hchunk.bind_error
  | some content =>
      rw [hfound] at hchunk
      refine hchunk.bind_ok ?_
      simp only
      split
      · exact Gives.throw _
      · have hread := h.table (Nat.lt_of_le_of_lt (length_chunk?_le hfound) hlen)
        rw [Gives, ExceptT.run_adapt, hread]
        cases readTable read content <;> rfl

theorem gives_ofHeaders {bytes : List UInt8} (hlen : bytes.length < 2 ^ 64) (h : FileHeader)
    (headers : List ProgramHeader) :
    Gives (ofHeaders bytes h headers) (ObjectFile.ofHeaders bytes h headers) := by
  match headers with
  | [] | [_] | [_, _] | [_, _, _] => exact Gives.throw _
  | p0 :: p1 :: p2 :: p3 :: tables =>
    refine (gives_sectionAt hlen 0 .text p0).bind fun text _ => ?_
    refine (gives_sectionAt hlen 1 .data p1).bind fun data _ => ?_
    refine (gives_sectionAt hlen 2 .ktext p2).bind fun ktext _ => ?_
    refine (gives_sectionAt hlen 3 .kdata p3).bind fun kdata _ => ?_
    match tables with
    | [] | [_] => exact Gives.pure _
    | p4 :: p5 :: _ =>
      refine (reads_relocation.tableAt .relocations hlen 4 p4).bind fun relocations _ => ?_
      refine (reads_symbol.tableAt .symbols hlen 5 p5).bind fun symbols _ => ?_
      exact Gives.pure _

/-- A field in the front of some bytes. -/
theorem fieldAt_take (bytes : List UInt8) {offset width n : Nat} (h : offset + width ≤ n) :
    fieldAt (bytes.take n) offset width = fieldAt bytes offset width := by
  rw [fieldAt, fieldAt, List.drop_take, List.take_take, Nat.min_eq_left (by omega)]

theorem fileHeader_read_take (bytes : List UInt8) :
    FileHeader.read (bytes.take fileHeaderSize) = FileHeader.read bytes := by
  simp only [FileHeader.read, List.take_take]
  simp (disch := decide) only [fieldAt_take]
  rfl

theorem programHeader_read_take (bytes : List UInt8) :
    ProgramHeader.read (bytes.take programHeaderSize) = ProgramHeader.read bytes := by
  simp only [ProgramHeader.read]
  simp (disch := decide) only [fieldAt_take]

theorem readHeaders_take (n : Nat) (bytes : List UInt8) :
    readHeaders n (bytes.take (n * programHeaderSize)) = readHeaders n bytes := by
  induction n generalizing bytes with
  | zero => rfl
  | succ n ih =>
      have hfront : ProgramHeader.read (bytes.take ((n + 1) * programHeaderSize)) =
          ProgramHeader.read bytes := by
        rw [← programHeader_read_take, List.take_take, Nat.min_eq_left (by rw [Nat.succ_mul]; omega),
          programHeader_read_take]
      rw [readHeaders, readHeaders, hfront, List.drop_take, Nat.succ_mul, Nat.add_sub_cancel, ih]

theorem gives_headers (n : Nat) {bytes : List UInt8} (hlen : bytes.length < 2 ^ 64)
    (hinside : n * programHeaderSize ≤ bytes.length) :
    Gives (headers n bytes) (.ok (readHeaders n bytes)) := by
  induction n generalizing bytes with
  | zero => exact Gives.pure _
  | succ n ih =>
      have hfirst : programHeaderSize ≤ bytes.length := by
        rw [Nat.succ_mul] at hinside
        omega
      have hfront : Gives (slice bytes 0 (UInt64.ofNat programHeaderSize))
          (.ok (bytes.take programHeaderSize)) := gives_front hfirst
      have hrest : Gives (slice bytes (UInt64.ofNat programHeaderSize) (UInt64.ofNat bytes.length))
          (.ok (bytes.drop programHeaderSize)) := gives_rest hlen hfirst
      have hmore : Gives (headers n (bytes.drop programHeaderSize))
          (.ok (readHeaders n (bytes.drop programHeaderSize))) := by
        apply ih
        · rw [List.length_drop]
          omega
        · rw [Nat.succ_mul] at hinside
          rw [List.length_drop]
          omega
      rw [headers, readHeaders, ← programHeader_read_take]
      exact hfront.bind_ok (hrest.bind_ok (hmore.bind_ok (Gives.pure _)))

/-- Program headers that lie in the file are read from there, and then what they describe. -/
theorem gives_found {bytes : List UInt8} (hlen : bytes.length < 2 ^ 64) (h : FileHeader) {stop : UInt64}
    (hstop : stop.toNat = h.headersAt.toNat + h.headerCount.toNat * programHeaderSize)
    (hinside : stop.toNat ≤ bytes.length) :
    Gives (do
      let found ← slice bytes h.headersAt stop
      let headers ← headers h.headerCount.toNat found
      ofHeaders bytes h headers)
      (ObjectFile.ofHeaders bytes h
        (readHeaders h.headerCount.toNat (bytes.drop h.headersAt.toNat))) := by
  have hslice : Gives (slice bytes h.headersAt stop)
      (.ok ((bytes.drop h.headersAt.toNat).take (stop.toNat - h.headersAt.toNat))) :=
    gives_slice (by omega) hinside
  rw [hstop, Nat.add_sub_cancel_left] at hslice
  have hheaders : Gives (headers h.headerCount.toNat
      ((bytes.drop h.headersAt.toNat).take (h.headerCount.toNat * programHeaderSize)))
      (.ok (readHeaders h.headerCount.toNat (bytes.drop h.headersAt.toNat))) := by
    rw [← readHeaders_take]
    apply gives_headers
    · rw [List.length_take, List.length_drop]
      omega
    · rw [List.length_take, List.length_drop]
      omega
  exact hslice.bind_ok (hheaders.bind_ok (gives_ofHeaders hlen h _))

end Guarded

/-! ### The end of the program headers -/

/-- The file header is accepted, and the end of the program headers it tells of wraps around the address
    space, to a place in the file. -/
def HeadersWrap (bytes : List UInt8) : Prop :=
  let h := FileHeader.read bytes
  let stop := h.headersAt.toNat + h.headerCount.toNat * programHeaderSize
  fileHeaderSize ≤ bytes.length ∧ h.check = .ok () ∧ 2 ^ 64 ≤ stop ∧ stop ≤ 2 ^ 64 + bytes.length

/-- A reading that may fail in either part fails only as its parts do. -/
theorem bind_ne_error {α β : Type} {x : Except Error α} {f : α → Except Error β} {e : Error}
    (hx : x ≠ .error e) (hf : ∀ a, f a ≠ .error e) : x >>= f ≠ .error e := by
  cases x with
  | error other => exact fun h => hx (congrArg Except.error (Except.error.inj h))
  | ok a => exact hf a

theorem readSection_ne (bytes : List UInt8) (index : Nat) (s : Segment) (p : ProgramHeader) :
    readSection bytes index s p ≠ .error .outOfBounds := by
  rw [readSection]
  split
  · simp
  · split <;> simp

theorem readTableAt_ne {α : Type} (entry : List UInt8 → Except Error (α × List UInt8))
    (kind : HeaderKind) (bytes : List UInt8) (index : Nat) (p : ProgramHeader) :
    readTableAt entry kind bytes index p ≠ .error .outOfBounds := by
  rw [readTableAt]
  split
  · simp
  · split
    · simp
    · split <;> simp

/-- Program headers that are there describe an object, or fail for a cause in the file. -/
theorem ofHeaders_ne (bytes : List UInt8) (h : FileHeader) (headers : List ProgramHeader) :
    ofHeaders bytes h headers ≠ .error .outOfBounds := by
  rcases headers with _ | ⟨p0, _ | ⟨p1, _ | ⟨p2, _ | ⟨p3, tables⟩⟩⟩⟩
  · simp [ofHeaders]
  · simp [ofHeaders]
  · simp [ofHeaders]
  · simp [ofHeaders]
  · refine bind_ne_error (readSection_ne bytes 0 .text p0) fun text => ?_
    refine bind_ne_error (readSection_ne bytes 1 .data p1) fun data => ?_
    refine bind_ne_error (readSection_ne bytes 2 .ktext p2) fun ktext => ?_
    refine bind_ne_error (readSection_ne bytes 3 .kdata p3) fun kdata => ?_
    rcases tables with _ | ⟨p4, _ | ⟨p5, rest⟩⟩
    · intro herror
      cases herror
    · intro herror
      cases herror
    · refine bind_ne_error (readTableAt_ne readRelocation .relocations bytes 4 p4) fun relocations => ?_
      refine bind_ne_error (readTableAt_ne readSymbol .symbols bytes 5 p5) fun symbols => ?_
      intro herror
      cases herror

theorem check_ne (h : FileHeader) : h.check ≠ .error .outOfBounds := by
  rw [FileHeader.check]
  repeat
    split
    · simp
  simp

/-- The end of the program headers, as it is computed, lies before their start exactly if it wraps. -/
theorem headersStop_cases (h : FileHeader) :
    let stop := h.headersAt + UInt64.ofNat (h.headerCount.toNat * programHeaderSize)
    let sum := h.headersAt.toNat + h.headerCount.toNat * programHeaderSize
    (stop < h.headersAt ∧ 2 ^ 64 ≤ sum ∧ stop.toNat + 2 ^ 64 = sum) ∨
      (¬stop < h.headersAt ∧ sum < 2 ^ 64 ∧ stop.toNat = sum) := by
  have hcount := h.headerCount.toNat_lt
  have hat := h.headersAt.toNat_lt
  have hsize : h.headerCount.toNat * programHeaderSize < 2 ^ 64 := by
    simp only [programHeaderSize]
    omega
  have htable : (UInt64.ofNat (h.headerCount.toNat * programHeaderSize)).toNat =
      h.headerCount.toNat * programHeaderSize := UInt64.toNat_ofNat_of_lt' hsize
  simp only [UInt64.lt_iff_toNat_lt, UInt64.toNat_add, htable]
  omega

/-- The decoder looks at nothing outside of the file, with one exception: if the end of the program headers
    wraps around the address space, and so seems to lie in the file, it asks for a slice that ends before
    it starts. In every other case all slices lie in the file, whatever its offsets, sizes, counts and
    lengths are, and the result is an object or an error. -/
theorem decode_slices (bytes : List UInt8) (hlen : bytes.length < 2 ^ 64) :
    (HeadersWrap bytes →
      (Guarded.decode bytes).run = none ∧ decode bytes = .error .outOfBounds) ∧
    (¬HeadersWrap bytes →
      (Guarded.decode bytes).run = some (decode bytes) ∧ decode bytes ≠ .error .outOfBounds) := by
  have hsize : (UInt64.ofNat bytes.length).toNat = bytes.length := UInt64.toNat_ofNat_of_lt' hlen
  simp only [HeadersWrap, Guarded.decode, decode]
  by_cases hshort : bytes.length < fileHeaderSize
  · rw [if_pos hshort, if_pos hshort]
    exact ⟨fun h => absurd h.1 (Nat.not_le.2 hshort), fun _ => ⟨rfl, by simp⟩⟩
  · have hlong := Nat.not_lt.1 hshort
    have hfront : Guarded.Gives (Guarded.slice bytes 0 (UInt64.ofNat fileHeaderSize))
        (.ok (bytes.take fileHeaderSize)) := Guarded.gives_front hlong
    rw [if_neg hshort, if_neg hshort, hfront.run_bind, Guarded.fileHeader_read_take]
    cases hcheck : (FileHeader.read bytes).check with
    | error e =>
        have hother : (.error e : Except Error ObjectFile) ≠ .error .outOfBounds := by
          rintro ⟨⟩
          exact check_ne _ hcheck
        exact ⟨fun h => absurd h.2.1 (by simp), fun _ => ⟨rfl, hother⟩⟩
    | ok _ =>
        have hcases := headersStop_cases (FileHeader.read bytes)
        have haccepted : Guarded.Gives (ExceptT.mk (some (.ok ()))) (.ok ()) := rfl
        rw [haccepted.run_bind]
        generalize FileHeader.read bytes = h at hcases ⊢
        simp only at hcases ⊢
        generalize h.headersAt + UInt64.ofNat (h.headerCount.toNat * programHeaderSize) = stop at *
        have hfirst : (UInt64.ofNat fileHeaderSize).toNat = fileHeaderSize := rfl
        have hcount := h.headerCount.toNat_lt
        simp only [Bool.or_eq_true, decide_eq_true_eq, UInt64.lt_iff_toNat_lt, hsize, hfirst] at hcases ⊢
        split
        · rename_i htruncated
          refine ⟨fun hwrap => ?_, fun _ => ⟨rfl, by simp⟩⟩
          simp only [fileHeaderSize, programHeaderSize] at *
          omega
        · rename_i hinside
          split
          · rename_i hbefore
            have hwrap : 2 ^ 64 ≤ h.headersAt.toNat + h.headerCount.toNat * programHeaderSize ∧
                h.headersAt.toNat + h.headerCount.toNat * programHeaderSize ≤ 2 ^ 64 + bytes.length := by
              omega
            exact ⟨fun _ => ⟨Guarded.run_slice_backwards bytes hbefore _, rfl⟩,
              fun hkept => absurd ⟨hlong, trivial, hwrap⟩ hkept⟩
          · rename_i hafter
            refine ⟨fun hwrap => ?_, fun _ => ⟨?_, ofHeaders_ne bytes h _⟩⟩
            · omega
            · exact Guarded.gives_found hlen h (by omega) (by omega)

/-- A file header whose program headers start 240 bytes before the end of the address space, and so end
    96 bytes after its start. -/
def wrappedFile : List UInt8 :=
  FileHeader.bytes
    { identity := identity, kind := 1, machine := machineCode, version := formatVersion, entry := 0
      headersAt := 0 - 240, headerSize := 56, headerCount := 6 } ++ List.replicate 32 0

theorem decode_slices_wrappedFile : HeadersWrap wrappedFile ∧
    (Guarded.decode wrappedFile).run = none ∧ decode wrappedFile = .error .outOfBounds := by
  have hwrap : HeadersWrap wrappedFile := by
    refine ⟨?_, ?_, ?_, ?_⟩ <;> decide +kernel
  exact ⟨hwrap, (decode_slices wrappedFile (by decide)).1 hwrap⟩

/-- There are files of which the decoder asks for bytes that they do not have. -/
theorem decode_not_always_inside :
    ¬∀ bytes : List UInt8, bytes.length < 2 ^ 64 → (Guarded.decode bytes).run ≠ none := by
  intro h
  exact h wrappedFile (by decide) (by decide +kernel)

end ObjectFile

end VectorRisc
