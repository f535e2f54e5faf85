/-
Module: VectorRisc.Proofs.Object.Truncation
Layer: Proofs
Purpose: The ends of object files. A decoder that sees only the start of some bytes reads what it would
  read from all of them, or notices that something is missing. The contents of an encoded object reach to
  its last byte, so every proper start of it is noticed to be one; bytes behind the object do not matter.
Imports: Mathlib.Tactic, VectorRisc.Proofs.Object.RoundTrip
Trusted boundary: none
Main exports: ObjectFile.Error.chain, ObjectFile.Truncated, ObjectFile.ofHeaders_start,
  ObjectFile.length_le_of_chunks, ObjectFile.decode_start_truncated
Open obligations: none
-/
import Mathlib.Tactic
import VectorRisc.Proofs.Object.RoundTrip

namespace VectorRisc

namespace ObjectFile

/-- An error and the errors that caused it, outermost first. -/
def Error.chain : Error → List Error
  | .inHeader index kind cause => .inHeader index kind cause :: cause.chain
  | e => [e]

/-- The reading failed because bytes are missing. -/
def Truncated {α : Type} (x : Except Error α) : Prop := ∃ e, x = .error e ∧ .truncated ∈ e.chain

/-- A reading that gives the same as another one, or fails because bytes are missing. -/
def SameOrTruncated {α : Type} (x y : Except Error α) : Prop := x = y ∨ Truncated x

theorem SameOrTruncated.bind {α β : Type} {x y : Except Error α} {f g : α → Except Error β}
    (h : SameOrTruncated x y) (hrest : ∀ a, SameOrTruncated (f a) (g a)) :
    SameOrTruncated (x >>= f) (y >>= g) := by
  rcases h with rfl | ⟨e, rfl, htruncated⟩
  · cases x with
    | error e => exact .inl rfl
    | ok a => exact hrest a
  · exact .inr ⟨e, rfl, htruncated⟩

/-! ### Starts of bytes -/

/-- What is found in the start of some bytes is found there in all of them. -/
theorem chunk?_of_isPrefix {start bytes content : List UInt8} {p : ProgramHeader} (h : start <+: bytes)
    (hchunk : chunk? start p = some content) : chunk? bytes p = some content := by
  obtain ⟨rest, rfl⟩ := h
  rw [chunk?] at hchunk ⊢
  split at hchunk
  · rename_i hinside
    have hlong : p.offset.toNat + p.fileSize.toNat ≤ (start ++ rest).length := by
      rw [List.length_append]
      omega
    rw [if_pos hlong, ← hchunk, List.drop_append_of_le_length (by omega),
      List.take_append_of_le_length (by rw [List.length_drop]; omega)]
  · cases hchunk

/-- The start of some bytes holds what a header points at, or nothing is found there. -/
theorem chunk?_start {start bytes : List UInt8} (h : start <+: bytes) (p : ProgramHeader) :
    chunk? start p = chunk? bytes p ∨ chunk? start p = none := by
  cases hchunk : chunk? start p with
  | none => exact .inr rfl
  | some content => exact .inl (chunk?_of_isPrefix h hchunk).symm

section Start

variable {start bytes : List UInt8}

theorem readSection_start (h : start <+: bytes) (index : Nat) (s : Segment) (p : ProgramHeader) :
    SameOrTruncated (readSection start index s p) (readSection bytes index s p) := by
  rcases chunk?_start h p with hsame | hnone
  · left
    rw [readSection, readSection, hsame]
  · right
    rw [readSection, hnone]
    exact ⟨_, rfl, by simp [Error.chain]⟩

theorem readTableAt_start {α : Type} (h : start <+: bytes)
    (entry : List UInt8 → Except Error (α × List UInt8)) (kind : HeaderKind) (index : Nat)
    (p : ProgramHeader) :
    SameOrTruncated (readTableAt entry kind start index p) (readTableAt entry kind bytes index p) := by
  rcases chunk?_start h p with hsame | hnone
  · left
    rw [readTableAt, readTableAt, hsame]
  · right
    rw [readTableAt, hnone]
    exact ⟨_, rfl, by simp [Error.chain]⟩

/-- Headers that are followed in the start of some bytes lead to the same object, or something is
    missing. -/
theorem ofHeaders_start (h : start <+: bytes) (header : FileHeader) (headers : List ProgramHeader) :
    SameOrTruncated (ofHeaders start header headers) (ofHeaders bytes header headers) := by
  unfold ofHeaders
  split
  · refine (readSection_start h 0 .text _).bind fun text => ?_
    refine (readSection_start h 1 .data _).bind fun data => ?_
    refine (readSection_start h 2 .ktext _).bind fun ktext => ?_
    refine (readSection_start h 3 .kdata _).bind fun kdata => ?_
    split
    · refine (readTableAt_start h readRelocation .relocations 4 _).bind fun relocations => ?_
      refine (readTableAt_start h readSymbol .symbols 5 _).bind fun symbols => ?_
      exact .inl rfl
    · exact .inl rfl
  · exact .inl rfl

end Start

/-! ### Contents reach to the end -/

theorem chunk?_ne_none_of_readSection {bytes : List UInt8} {index : Nat} {s : Segment}
    {p : ProgramHeader} {content : Section} (h : readSection bytes index s p = .ok content) :
    chunk? bytes p ≠ none := by
  intro hnone
  rw [readSection, hnone] at h
  cases h

theorem chunk?_ne_none_of_readTableAt {α : Type} {entry : List UInt8 → Except Error (α × List UInt8)}
    {kind : HeaderKind} {bytes : List UInt8} {index : Nat} {p : ProgramHeader} {entries : List α}
    (h : readTableAt entry kind bytes index p = .ok entries) : chunk? bytes p ≠ none := by
  intro hnone
  rw [readTableAt, hnone] at h
  cases h

/-- An object is read only if the bytes hold everything that its headers point at. -/
theorem chunk?_ne_none_of_ofHeaders {bytes : List UInt8} {header : FileHeader}
    {headers : List ProgramHeader} {file : ObjectFile} (hcount : headers.length = 4 ∨ headers.length = 6)
    (h : ofHeaders bytes header headers = .ok file) : ∀ p ∈ headers, chunk? bytes p ≠ none := by
  rcases headers with _ | ⟨p0, _ | ⟨p1, _ | ⟨p2, _ | ⟨p3, tables⟩⟩⟩⟩
  · simp at hcount
  · simp at hcount
  · simp at hcount
  · simp at hcount
  · simp only [ofHeaders, bind_eq_ok] at h
    obtain ⟨text, htext, data, hdata, ktext, hktext, kdata, hkdata, hfile⟩ := h
    have htables : ∀ p ∈ tables, chunk? bytes p ≠ none := by
      rcases tables with _ | ⟨p4, _ | ⟨p5, rest⟩⟩
      · simp
      · simp at hcount
      · obtain rfl : rest = [] := by simpa using hcount
        simp only [bind_eq_ok] at hfile
        obtain ⟨relocations, hrelocations, symbols, hsymbols, -⟩ := hfile
        simp only [List.forall_mem_cons]
        exact ⟨chunk?_ne_none_of_readTableAt hrelocations, chunk?_ne_none_of_readTableAt hsymbols, by simp⟩
    simp only [List.forall_mem_cons]
    exact ⟨chunk?_ne_none_of_readSection htext, chunk?_ne_none_of_readSection hdata,
      chunk?_ne_none_of_readSection hktext, chunk?_ne_none_of_readSection hkdata, htables⟩

/-- Bytes that hold everything that placed headers point at are as long as all the contents. -/
theorem length_le_of_chunks {parts : List (ProgramHeader × List UInt8)} {before bytes : List UInt8}
    {offset : UInt64} (hoffset : offset.toNat = before.length)
    (hsize : ∀ part ∈ parts, part.1.fileSize.toNat = part.2.length)
    (hlen : (before ++ parts.flatMap (·.2)).length < 2 ^ 64) (hbefore : before.length ≤ bytes.length)
    (hchunks : ∀ p ∈ place offset (parts.map (·.1)), chunk? bytes p ≠ none) :
    (before ++ parts.flatMap (·.2)).length ≤ bytes.length := by
  induction parts generalizing before offset with
  | nil => simpa using hbefore
  | cons part parts ih =>
      obtain ⟨hpart, hparts⟩ := List.forall_mem_cons.1 hsize
      obtain ⟨hfirst, hchunks⟩ := List.forall_mem_cons.1 hchunks
      have hbytes : before ++ (part :: parts).flatMap (·.2) =
          (before ++ part.2) ++ parts.flatMap (·.2) := by
        rw [List.flatMap_cons, List.append_assoc]
      rw [hbytes] at hlen ⊢
      have hinside : (before ++ part.2).length ≤ bytes.length := by
        by_contra hshort
        refine hfirst ?_
        rw [chunk?, if_neg]
        simpa only [hoffset, hpart, List.length_append] using hshort
      have hnext : (offset + part.1.fileSize).toNat = (before ++ part.2).length := by
        rw [List.length_append] at hlen
        rw [UInt64.toNat_add, hoffset, hpart, ← List.length_append, Nat.mod_eq_of_lt (by omega)]
      exact ih hnext hparts hlen hinside hchunks

/-! ### Whole files -/

/-- Bytes that end within the program headers of an accepted header are truncated. -/
theorem decode_append_short {h : FileHeader} {rest : List UInt8} (hid : h.identity.length = 16)
    (hcheck : h.check = .ok ()) (hat : h.headersAt = UInt64.ofNat fileHeaderSize)
    (hshort : rest.length < h.headerCount.toNat * programHeaderSize) :
    decode (h.bytes ++ rest) = .error .truncated := by
  have hlength : (h.bytes ++ rest).length = fileHeaderSize + rest.length := by
    rw [List.length_append, length_fileHeaderBytes hid]
  have hcount := h.headerCount.toNat_lt
  have hsize : h.headerCount.toNat * programHeaderSize < 2 ^ 63 := by
    simp only [programHeaderSize]
    omega
  have hlong : fileHeaderSize + rest.length < 2 ^ 64 := by
    simp only [fileHeaderSize]
    omega
  have hend : UInt64.ofNat (h.bytes ++ rest).length <
      h.headersAt + UInt64.ofNat (h.headerCount.toNat * programHeaderSize) := by
    have hfront : (UInt64.ofNat fileHeaderSize).toNat = fileHeaderSize := rfl
    have hheaders : (UInt64.ofNat (h.headerCount.toNat * programHeaderSize)).toNat =
        h.headerCount.toNat * programHeaderSize :=
      UInt64.toNat_ofNat_of_lt' (lt_trans hsize (by decide))
    rw [UInt64.lt_iff_toNat_lt, hlength, UInt64.toNat_ofNat_of_lt' hlong, hat, UInt64.toNat_add, hfront,
      hheaders, Nat.mod_eq_of_lt (by simp only [fileHeaderSize]; omega)]
    omega
  rw [decode, if_neg (by omega), read_fileHeaderBytes rest hid]
  simp only [hcheck, hend, decide_true, Bool.or_true, if_true]

variable {file : ObjectFile}

/-- A start that ends within the headers. -/
theorem decode_take_front (h : file.Encodable) {n : Nat} (hn : n < file.front.length) :
    decode ((file.front ++ file.contents.flatMap (·.2)).take n) = .error .truncated := by
  rw [List.take_append_of_le_length (by omega)]
  by_cases hheader : n < fileHeaderSize
  · rw [decode, if_pos (by rw [List.length_take]; omega)]
  · have hbytes := length_fileHeaderBytes (h := headerOf file file.contents.length) rfl
    rw [length_front] at hn
    rw [front, List.take_append, List.take_of_length_le (by omega)]
    refine decode_append_short rfl (check_headerOf h.kind) rfl ?_
    rw [List.length_take, (headerCount_eq h.kind).1, length_placedHeaders, hbytes, Nat.mul_comm]
    omega

/-- A start that ends within the contents. -/
theorem decode_take_contents (h : file.Encodable) {n : Nat} (hfront : file.front.length ≤ n)
    (hn : n < file.encodedLength) :
    Truncated (decode ((file.front ++ file.contents.flatMap (·.2)).take n)) := by
  have hlength := length_encoded file
  have hprefix : (file.front ++ file.contents.flatMap (·.2)).take n <+:
      file.front ++ file.contents.flatMap (·.2) := List.take_prefix _ _
  have hshort : ((file.front ++ file.contents.flatMap (·.2)).take n).length = n := by
    rw [List.length_take, hlength]
    omega
  have hheaders : decode ((file.front ++ file.contents.flatMap (·.2)).take n) =
      ofHeaders ((file.front ++ file.contents.flatMap (·.2)).take n)
        (headerOf file file.contents.length) file.placedHeaders := by
    have hlimit := h.length
    rw [List.take_append, List.take_of_length_le hfront] at hshort ⊢
    exact decode_front h.kind (by omega)
  rw [hheaders]
  refine (ofHeaders_start hprefix _ _).resolve_left fun hsame => ?_
  -- the object would be read whole, from fewer bytes than its contents have
  rw [ofHeaders_of_describes h rfl rfl h.describes] at hsame
  have hcount : file.placedHeaders.length = 4 ∨ file.placedHeaders.length = 6 := by
    rw [length_placedHeaders]
    exact (headersOf?_eq h.kind).2
  have hchunks := chunk?_ne_none_of_ofHeaders hcount hsame
  have hsizes : ∀ part ∈ file.contents, part.1.fileSize.toNat = part.2.length := fun part hpart =>
    fileSize_of_mem_contents hpart (h.length_lt part hpart)
  have hwhole := length_le_of_chunks (headerCount_eq h.kind).2 hsizes (by rw [hlength]; exact h.length)
    (by omega) hchunks
  omega

/-- Bytes behind an encoded object do not matter. -/
theorem decode_encoded_append (h : file.Encodable) {more : List UInt8}
    (hbound : (file.front ++ file.contents.flatMap (·.2) ++ more).length < 2 ^ 64) :
    decode (file.front ++ file.contents.flatMap (·.2) ++ more) = .ok file.settled := by
  have hprefix : file.front ++ file.contents.flatMap (·.2) <+:
      file.front ++ file.contents.flatMap (·.2) ++ more := List.prefix_append _ _
  have hdescribes : List.Forall₂ (Describes (file.front ++ file.contents.flatMap (·.2) ++ more))
      file.placedHeaders file.contents :=
    h.describes.imp fun _ _ hpart => ⟨hpart.1, chunk?_of_isPrefix hprefix hpart.2⟩
  rw [List.append_assoc] at hbound hdescribes ⊢
  rw [decode_front h.kind hbound]
  exact ofHeaders_of_describes h rfl rfl hdescribes

/-- Truncation is always noticed, and bytes behind an object are not read. If an object that fits the
    format is written, then every proper start of its bytes fails to be read, by an error that goes back to
    missing bytes; and its bytes followed by any others, as long as the length of all is a 64-bit number,
    are read as the same object as without them. -/
theorem decode_start_truncated {file : ObjectFile} (h : file.Encodable) {bytes : List UInt8}
    (hencode : file.encode = .ok bytes) :
    (∀ start, start <+: bytes → start ≠ bytes →
      ∃ e, decode start = .error e ∧ .truncated ∈ e.chain) ∧
    ∀ more, (bytes ++ more).length < 2 ^ 64 →
      decode (bytes ++ more) = decode bytes ∧ decode bytes = .ok file.settled := by
  rw [encode_eq_front h.kind] at hencode
  obtain rfl := Except.ok.inj hencode
  refine ⟨?_, ?_⟩
  · intro start hstart hproper
    have hn : start.length < file.encodedLength := by
      rw [← length_encoded]
      exact lt_of_le_of_ne hstart.length_le fun heq => hproper (hstart.eq_of_length heq)
    rw [List.prefix_iff_eq_take.1 hstart]
    by_cases hfront : start.length < file.front.length
    · exact ⟨.truncated, decode_take_front h hfront, by simp [Error.chain]⟩
    · exact decode_take_contents h (Nat.not_lt.1 hfront) hn
  · intro more hbound
    have halone : (file.front ++ file.contents.flatMap (·.2) ++ ([] : List UInt8)).length < 2 ^ 64 := by
      rw [List.append_nil, length_encoded]
      exact h.length
    have hwhole := decode_encoded_append h halone
    rw [List.append_nil] at hwhole
    exact ⟨(decode_encoded_append h hbound).trans hwhole.symm, hwhole⟩

/-- An executable whose only content is a word of code, so that the last of its sections are empty. -/
def oneWordImage : ObjectFile :=
  { empty .executable with
    entry := Segment.textBase
    sections :=
      { (empty .executable).sections with
        text := { addr := Segment.textBase, data := Bytes.ofList [5, 0, 0, 0] } } }

/-- The image without its last byte, and with a byte too many. -/
theorem decode_start_truncated_oneWordImage : oneWordImage.Encodable ∧
    ∃ bytes, oneWordImage.encode = .ok bytes ∧ bytes.length = 292 ∧
      (∃ e, decode (bytes.take 291) = .error e ∧ .truncated ∈ e.chain) ∧
      decode (bytes ++ [0]) = .ok oneWordImage.settled := by
  have hlength : oneWordImage.encodedLength = 292 := by decide
  have hfits : oneWordImage.Encodable :=
    ⟨.inr rfl, by simp [oneWordImage, empty], by simp [oneWordImage, empty], by rw [hlength]; decide⟩
  obtain ⟨bytes, hencode, hbytes, -⟩ := decode_encode hfits
  rw [hlength] at hbytes
  obtain ⟨hstarts, hmore⟩ := decode_start_truncated hfits hencode
  have hproper : bytes.take 291 ≠ bytes := by
    intro heq
    have hshort := congrArg List.length heq
    rw [List.length_take] at hshort
    omega
  have hlong : (bytes ++ [0]).length < 2 ^ 64 := by
    rw [List.length_append, hbytes]
    decide
  obtain ⟨hsame, hwhole⟩ := hmore [0] hlong
  exact ⟨hfits, bytes, hencode, hbytes, hstarts _ (List.take_prefix _ _) hproper, hsame.trans hwhole⟩

end ObjectFile

end VectorRisc
