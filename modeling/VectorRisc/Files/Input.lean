/-
Module: VectorRisc.Files.Input
Layer: Files
Purpose: The input of the console: a stream that is read through a buffer. Bytes, lines, tokens and raw
  reads all take from the same buffer, so that nothing is read twice and nothing is lost, unless the
  buffer is thrown away. The stream gives its bytes in pieces of any lengths, one whenever it is read.
Imports: VectorRisc.Text.Glyph
Trusted boundary: a stream gives something whenever it is read, until its end, where it stays
Main exports: Piece, Input, Input.rewind, Input.read, Input.readByte, Input.readToken, Input.readLine
Open obligations: none
-/
import VectorRisc.Text.Glyph

namespace VectorRisc

/-- What a stream gives when it is read: at least one byte. -/
structure Piece where
  first : UInt8
  more : List UInt8
deriving DecidableEq, Repr, Inhabited

namespace Piece

def bytes (p : Piece) : List UInt8 := p.first :: p.more

/-- Bytes that come in one piece, if there are any. -/
def ofBytes : List UInt8 → List Piece
  | [] => []
  | b :: more => [⟨b, more⟩]

theorem flatMap_ofBytes (bytes : List UInt8) : (ofBytes bytes).flatMap Piece.bytes = bytes := by
  cases bytes <;> simp [ofBytes, Piece.bytes]

end Piece

/-- Pieces of a stream that are still to come, and bytes taken from it but not yet read. -/
structure Input where
  stream : List Piece := []
  held : List UInt8 := []
deriving DecidableEq, Repr, Inhabited

namespace Input

/-- The greatest number of bytes that are held. -/
def capacity : Nat := 4096

/-- What a stream is still to give, in order. -/
def toCome (stream : List Piece) : List UInt8 := stream.flatMap Piece.bytes

/-- What is still to be read, in order. -/
def rest (i : Input) : List UInt8 := i.held ++ toCome i.stream

/-- Throw away what is held. -/
def rewind (i : Input) : Input := { i with held := [] }

/-- Read a stream: the bytes of its next piece, as far as there is room for them, and the pieces that
    follow. -/
def pull (room : Nat) : List Piece → List UInt8 × List Piece
  | [] => ([], [])
  | piece :: later => (piece.bytes.take room, Piece.ofBytes (piece.bytes.drop room) ++ later)

theorem toCome_pull (room : Nat) (stream : List Piece) :
    (pull room stream).1 ++ toCome (pull room stream).2 = toCome stream := by
  cases stream with
  | nil => rfl
  | cons piece later =>
    simp only [pull, toCome, List.flatMap_append, Piece.flatMap_ofBytes, List.flatMap_cons,
      ← List.append_assoc, List.take_append_drop]

/-- Something is read, unless the stream is at its end. -/
theorem pull_ne_nil {room : Nat} (hroom : 0 < room) {stream : List Piece} (h : stream ≠ []) :
    (pull room stream).1 ≠ [] := by
  cases stream with
  | nil => exact absurd rfl h
  | cons piece later => simp [pull, Piece.bytes, Nat.ne_of_gt hroom]

/-- Read the stream once and hold what it gives. -/
def fill (i : Input) : Input :=
  let (bytes, stream) := pull (capacity - i.held.length) i.stream
  { stream := stream, held := i.held ++ bytes }

/-- The input with something held, if anything is left. -/
def ready (i : Input) : Input := if i.held.isEmpty then i.fill else i

/-- Read at most `n` bytes at once. A long read goes past the empty buffer straight to the stream; any
    other gives no more than what is held. -/
def read (i : Input) (n : Nat) : List UInt8 × Input :=
  if n = 0 then ([], i)
  else if i.held.isEmpty && capacity ≤ n then
    let (bytes, stream) := pull n i.stream
    (bytes, { i with stream := stream })
  else
    let i := i.ready
    (i.held.take n, { i with held := i.held.drop n })

/-- Read a byte; there is none at the end. -/
def readByte (i : Input) : Option UInt8 × Input :=
  let i := i.ready
  match i.held with
  | [] => (none, i)
  | b :: held => (some b, { i with held := held })

/-- The bytes start with a character that no further byte can change. -/
def startsWhole : List UInt8 → Bool
  | [] => false
  | b :: tail =>
    match Glyph.lead? b with
    | none => true
    | some (n, lo, hi) => n ≤ tail.length || !(tail.isEmpty || Glyph.tailFits lo hi tail)

/-- Filling loses and adds nothing. -/
theorem rest_fill (i : Input) : i.fill.rest = i.rest := by
  simp only [fill, rest, List.append_assoc, toCome_pull]

/-- Fill until a whole character is at the front of what is held. All that is left is held before, if it
    ends within the character. -/
def primed (i : Input) : Input :=
  if _h : (startsWhole i.held || i.stream.isEmpty || capacity ≤ i.held.length) = true then i
  else primed i.fill
termination_by (toCome i.stream).length
decreasing_by
  simp only [Bool.or_eq_true, not_or, List.isEmpty_iff, decide_eq_true_eq, Nat.not_le] at _h
  have hpulled := pull_ne_nil (Nat.sub_pos_of_lt _h.2) _h.1.2
  have hstream := toCome_pull (capacity - i.held.length) i.stream
  simp only [fill, ← hstream, List.length_append]
  exact Nat.lt_add_of_pos_left (List.length_pos_iff.2 hpulled)

theorem rest_primed (i : Input) : i.primed.rest = i.rest := by
  induction i using primed.induct with
  | case1 i h => rw [primed, dif_pos h]
  | case2 i h ih => rw [primed, dif_neg h, ih, rest_fill]

/-- Read a character; there is none at the end. One that the stream cuts short is read as it is. -/
def readGlyph (i : Input) : Option Glyph × Input :=
  let i := i.primed
  match i.held with
  | [] => (none, i)
  | b :: tail =>
    let g := Glyph.first b tail
    (some g, { i with held := i.held.drop g.bytes.length })

/-- A character that is read leaves less to be read. -/
theorem rest_length_readGlyph {i j : Input} {g : Glyph} (h : i.readGlyph = (some g, j)) :
    j.rest.length < i.rest.length := by
  rw [← rest_primed i]
  cases hheld : i.primed.held with
  | nil => simp [readGlyph, hheld] at h
  | cons b tail =>
    simp only [readGlyph, hheld, Prod.mk.injEq, Option.some.injEq] at h
    obtain ⟨rfl, rfl⟩ := h
    have hpos := Glyph.first_bytes_pos b tail
    simp only [rest, hheld, List.length_append, List.length_drop, List.length_cons]
    omega

/-- Read the rest of a token, with the characters so far in reverse, and the white space after it. -/
def tokenFrom (sofar : List Glyph) (i : Input) : List Glyph × Input :=
  match _h : i.readGlyph with
  | (none, j) => (sofar, j)
  | (some g, j) =>
    if !g.isBlank then tokenFrom (g :: sofar) j
    else if sofar.isEmpty then tokenFrom [] j
    else (sofar, j)
termination_by i.rest.length
decreasing_by all_goals exact rest_length_readGlyph _h

/-- Read a token: skip white space, then take characters up to the next white space, which is read
    too. There is none if only white space is left. A byte outside every well-formed character comes
    out as U+FFFD. -/
def readToken (i : Input) : Option Text × Input :=
  let (token, i) := tokenFrom [] i
  if token.isEmpty then (none, i)
  else (some (token.reverse.flatMap fun g => Text.encodePoint g.code), i)

/-- Read bytes up to a line feed, which is kept, and at most `limit` of them, onto those so far in
    reverse. -/
def lineFrom : (limit : Nat) → (sofar : List UInt8) → Input → List UInt8 × Input
  | 0, sofar, i => (sofar.reverse, i)
  | limit + 1, sofar, i =>
    match i.readByte with
    | (none, i) => (sofar.reverse, i)
    | (some b, i) =>
      if b = ascii '\n' then ((b :: sofar).reverse, i) else lineFrom limit (b :: sofar) i

/-- Read a line of at most `limit` bytes. There is none at the end, but an empty one can be read
    anywhere. -/
def readLine (i : Input) (limit : Nat) : Option (List UInt8) × Input :=
  let (line, i) := lineFrom limit [] i
  (if line.isEmpty && limit ≠ 0 then none else some line, i)

end Input

end VectorRisc
