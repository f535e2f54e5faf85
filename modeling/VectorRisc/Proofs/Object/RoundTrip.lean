/-
Module: VectorRisc.Proofs.Object.RoundTrip
Layer: Proofs
Purpose: Object files survive the trip through bytes. An object whose parts fit the format is written, and
  what is read back is the object with the memory of each section settled; an object that was read from
  bytes is settled already, so writing it and reading it again changes nothing.
Imports: VectorRisc.Proofs.Object.Tables, VectorRisc.Proofs.Outcome
Trusted boundary: none
Main exports: ObjectFile.Encodable, ObjectFile.settled, ObjectFile.decode_encode,
  ObjectFile.ReadFrom.encodable, ObjectFile.decode_encode_roundTrip
Open obligations: none
-/
import VectorRisc.Proofs.Object.Tables
import VectorRisc.Proofs.Outcome

namespace VectorRisc

/-- The section with its size in memory written down. -/
def Section.settled (s : Section) : Section := { s with memSize := s.size }

namespace ObjectFile

/-- The object with the size of each section written down, and without the tables that only a
    relocatable object has. -/
def settled (file : ObjectFile) : ObjectFile :=
  { file with
    sections := PerSegment.ofFn fun s => (file.sections.get s).settled
    relocations := if file.kind = .relocatable then file.relocations else []
    symbols := if file.kind = .relocatable then file.symbols else [] }

/-- The number of bytes of an encoded object: the headers and the contents they describe. -/
def encodedLength (file : ObjectFile) : Nat :=
  fileHeaderSize + programHeaderSize * file.contents.length + (file.contents.flatMap (·.2)).length

/-- The parts of an object fit the format. -/
structure Encodable (file : ObjectFile) : Prop where
  kind : file.kind = .relocatable ∨ file.kind = .executable
  relocations : ∀ r ∈ file.relocations, RelocationFits r
  symbols : ∀ s ∈ file.symbols, SymbolFits s
  length : file.encodedLength < 2 ^ 64

/-! ### Headers -/

theorem length_fileHeaderBytes {h : FileHeader} (hid : h.identity.length = 16) :
    h.bytes.length = fileHeaderSize := by
  simp [FileHeader.bytes, hid, fileHeaderSize]

theorem length_programHeaderBytes (p : ProgramHeader) : p.bytes.length = programHeaderSize := by
  simp [ProgramHeader.bytes, programHeaderSize]

/-- A file header is read back from the bytes it was written with. -/
theorem read_fileHeaderBytes {h : FileHeader} (rest : List UInt8) (hid : h.identity.length = 16) :
    FileHeader.read (h.bytes ++ rest) = h := by
  simp [FileHeader.read, FileHeader.bytes, fieldAt, List.drop_append,
    List.drop_eq_nil_of_le, hid]

/-- A program header is read back from the bytes it was written with. -/
theorem read_programHeaderBytes (p : ProgramHeader) (rest : List UInt8) :
    ProgramHeader.read (p.bytes ++ rest) = p := by
  simp [ProgramHeader.read, ProgramHeader.bytes, fieldAt, List.drop_append,
    List.drop_eq_nil_of_le]

/-- Program headers are read back one after the other. -/
theorem readHeaders_flatMap (headers : List ProgramHeader) (rest : List UInt8) :
    readHeaders headers.length (headers.flatMap ProgramHeader.bytes ++ rest) = headers := by
  induction headers with
  | nil => rfl
  | cons p headers ih =>
      rw [List.flatMap_cons, List.append_assoc, List.length_cons, readHeaders,
        read_programHeaderBytes, List.drop_left' (length_programHeaderBytes p), ih]

theorem length_readHeaders (n : Nat) (bytes : List UInt8) : (readHeaders n bytes).length = n := by
  induction n generalizing bytes with
  | zero => rfl
  | succ n ih => rw [readHeaders, List.length_cons, ih]

theorem length_flatMap_programHeaderBytes (headers : List ProgramHeader) :
    (headers.flatMap ProgramHeader.bytes).length = programHeaderSize * headers.length := by
  induction headers with
  | nil => rfl
  | cons p headers ih =>
      rw [List.flatMap_cons, List.length_append, ih, length_programHeaderBytes, List.length_cons,
        Nat.mul_succ, Nat.add_comm]

/-! ### Placed contents -/

/-- A placed header is that of a part, and points at the part's content. -/
def Describes (bytes : List UInt8) (q : ProgramHeader) (part : ProgramHeader × List UInt8) : Prop :=
  (∃ offset, q = { part.1 with offset := offset }) ∧ chunk? bytes q = some part.2

/-- A placed header differs from the part's header in its place only. -/
theorem Describes.fields {bytes : List UInt8} {q : ProgramHeader} {part : ProgramHeader × List UInt8}
    (h : Describes bytes q part) : q.kind = part.1.kind ∧ q.addr = part.1.addr ∧
      q.fileSize = part.1.fileSize ∧ q.memSize = part.1.memSize := by
  obtain ⟨⟨offset, rfl⟩, -⟩ := h
  exact ⟨rfl, rfl, rfl, rfl⟩

theorem length_place (offset : UInt64) (headers : List ProgramHeader) :
    (place offset headers).length = headers.length := by
  induction headers generalizing offset with
  | nil => rfl
  | cons p headers ih => rw [place, List.length_cons, List.length_cons, ih]

/-- Contents that stand one after the other are found where their headers are placed. -/
theorem describes_place (parts : List (ProgramHeader × List UInt8)) (before : List UInt8)
    (offset : UInt64) (hoffset : offset.toNat = before.length)
    (hsize : ∀ part ∈ parts, part.1.fileSize.toNat = part.2.length)
    (hlen : (before ++ parts.flatMap (·.2)).length < 2 ^ 64) :
    List.Forall₂ (Describes (before ++ parts.flatMap (·.2))) (place offset (parts.map (·.1))) parts := by
  induction parts generalizing before offset with
  | nil => exact .nil
  | cons part parts ih =>
      have hpart : part.1.fileSize.toNat = part.2.length := hsize part List.mem_cons_self
      have hbytes : before ++ (part :: parts).flatMap (·.2) =
          (before ++ part.2) ++ parts.flatMap (·.2) := by
        rw [List.flatMap_cons, List.append_assoc]
      rw [hbytes] at hlen ⊢
      refine .cons ⟨⟨offset, rfl⟩, ?_⟩ (ih (before ++ part.2) _ ?_ ?_ hlen)
      · have hinside : offset.toNat + part.1.fileSize.toNat ≤
            ((before ++ part.2) ++ parts.flatMap (·.2)).length := by
          simp only [hoffset, hpart, List.length_append]
          omega
        rw [chunk?, if_pos hinside, hoffset, hpart, List.append_assoc, List.drop_left, List.take_left]
      · rw [List.length_append] at hlen
        rw [UInt64.toNat_add, hoffset, hpart, ← List.length_append, Nat.mod_eq_of_lt (by omega)]
      · intro other hother
        exact hsize other (List.mem_cons_of_mem part hother)

/-- A header tells the size of its content, as long as that fits the address space. -/
theorem fileSize_of_mem_contents {file : ObjectFile} {part : ProgramHeader × List UInt8}
    (hpart : part ∈ file.contents) (hlen : part.2.length < 2 ^ 64) :
    part.1.fileSize.toNat = part.2.length := by
  have hsection : ∀ s : Segment, part = (sectionHeader file s, Bytes.toList (file.sections.get s).data) →
      part.1.fileSize.toNat = part.2.length := by
    rintro s rfl
    exact Bytes.toNat_size64 hlen
  have htable : ∀ kind content, part = (tableHeader kind content, content) →
      part.1.fileSize.toNat = part.2.length := by
    rintro kind content rfl
    exact UInt64.toNat_ofNat_of_lt' hlen
  simp only [contents] at hpart
  split at hpart
  · rcases List.mem_append.1 hpart with hseg | htab
    · obtain ⟨s, -, rfl⟩ := List.mem_map.1 hseg
      exact hsection s rfl
    · rcases List.mem_cons.1 htab with hrel | hsym
      · exact htable _ _ hrel
      · exact htable _ _ (List.mem_singleton.1 hsym)
  · obtain ⟨s, -, rfl⟩ := List.mem_map.1 hpart
    exact hsection s rfl

/-! ### Reading what was written -/

theorem le_size (s : Section) : Bytes.size64 s.data ≤ s.size := by
  rw [Section.size]
  split
  · exact UInt64.le_refl _
  · rename_i h
    exact UInt64.not_lt.1 h

/-- The header kind of a segment does not change when it is read: only kernel code asks whether it
    starts the kernel's code region, and then its header says so itself. -/
theorem ofSegment_kernelStart (kernelStart : Bool) (s : Segment) :
    HeaderKind.ofSegment (HeaderKind.ofSegment kernelStart s = .kernelStart) s =
      HeaderKind.ofSegment kernelStart s := by
  cases s <;> cases kernelStart <;> rfl

theorem ofSegment_ktext_eq_kernelStart (kernelStart : Bool) :
    decide (HeaderKind.ofSegment kernelStart .ktext = .kernelStart) = kernelStart := by
  cases kernelStart <;> rfl

theorem readSection_of_describes {bytes : List UInt8} {file : ObjectFile} {s : Segment}
    {q : ProgramHeader} (index : Nat)
    (h : Describes bytes q (sectionHeader file s, Bytes.toList (file.sections.get s).data)) :
    readSection bytes index s q = .ok (file.sections.get s).settled := by
  obtain ⟨hkind, haddr, hfile, hmem⟩ := h.fields
  have hroom : ¬ (file.sections.get s).size < Bytes.size64 (file.sections.get s).data :=
    UInt64.not_lt.2 (le_size _)
  have hsame : q.kind = HeaderKind.ofSegment (q.kind = .kernelStart) s := by
    rw [hkind]
    exact (ofSegment_kernelStart file.kernelStart s).symm
  rw [readSection, h.2]
  simp only [← hsame, ne_eq, not_true_eq_false, decide_false, Bool.false_or, hfile, hmem, haddr,
    sectionHeader, hroom, Bytes.ofList_toList, Section.settled, Bool.false_eq_true, if_false]

theorem readTableAt_of_describes {α : Type} {entry : List UInt8 → Except Error (α × List UInt8)}
    {bytes content : List UInt8} {kind : HeaderKind} {q : ProgramHeader} {entries : List α}
    (index : Nat) (h : Describes bytes q (tableHeader kind content, content))
    (hread : readTable entry content = .ok entries) :
    readTableAt entry kind bytes index q = .ok entries := by
  obtain ⟨hkind, -⟩ := h.fields
  have hsame : q.kind = kind := hkind
  rw [readTableAt, h.2]
  simp only [hsame, ne_eq, not_true_eq_false, if_false, hread]

/-- The header of kernel code tells whether it starts the kernel's code region. -/
theorem kernelStart_of_describes {bytes content : List UInt8} {file : ObjectFile} {q : ProgramHeader}
    (h : Describes bytes q (sectionHeader file .ktext, content)) :
    decide (q.kind = .kernelStart) = file.kernelStart := by
  rw [h.fields.1]
  exact ofSegment_ktext_eq_kernelStart file.kernelStart

/-- The contents of an object that fits the format are no longer than the format can tell. -/
theorem Encodable.length_lt {file : ObjectFile} (h : file.Encodable)
    (part : ProgramHeader × List UInt8) (hpart : part ∈ file.contents) : part.2.length < 2 ^ 64 := by
  have hlen := h.length
  have hle : part.2.length ≤ (file.contents.flatMap (·.2)).length := by
    rw [List.length_flatMap]
    exact List.single_le_sum (fun _ _ => Nat.zero_le _) _ (List.mem_map.2 ⟨part, hpart, rfl⟩)
  rw [encodedLength] at hlen
  omega

/-- A table of an object that fits the format has no more entries than the format can count. -/
theorem length_lt_of_tableBytes {α : Type} {bytesOf : α → List UInt8} {entries : List α}
    (hlen : ∀ a, entryMinimum ≤ (bytesOf a).length)
    (h : (tableBytes bytesOf entries).length < 2 ^ 64) : entries.length < 2 ^ 64 := by
  have hle : 16 * entries.length ≤ (entries.flatMap bytesOf).length := le_length_flatMap entries hlen
  rw [tableBytes, List.length_append] at h
  omega

/-- Headers that describe the contents of an object give the object back. -/
theorem ofHeaders_of_describes {file : ObjectFile} {bytes : List UInt8} {h : FileHeader}
    {headers : List ProgramHeader} (hfile : file.Encodable) (hkind : h.kind = file.kind.code)
    (hentry : h.entry = file.entry)
    (hdesc : List.Forall₂ (Describes bytes) headers file.contents) :
    ofHeaders bytes h headers = .ok file.settled := by
  have hlong (r : Relocation) : entryMinimum ≤ (relocationBytes r).length := by
    rw [length_relocationBytes]
    exact Nat.le_add_right 16 _
  have hlong' (s : Symbol) : entryMinimum ≤ (symbolBytes s).length := by
    rw [length_symbolBytes]
    exact Nat.le_add_right 16 _
  by_cases hrel : file.kind = .relocatable
  · have hcount := length_lt_of_tableBytes hlong
      (hfile.length_lt (tableHeader .relocations (tableBytes relocationBytes file.relocations),
        tableBytes relocationBytes file.relocations) (by simp [contents, hrel]))
    have hcount' := length_lt_of_tableBytes hlong'
      (hfile.length_lt (tableHeader .symbols (tableBytes symbolBytes file.symbols),
        tableBytes symbolBytes file.symbols) (by simp [contents, hrel]))
    simp only [contents, hrel, if_true, Segment.all, List.map_cons, List.map_nil, List.cons_append,
      List.nil_append] at hdesc
    obtain _ | ⟨htext, _ | ⟨hdata, _ | ⟨hktext, _ | ⟨hkdata, _ | ⟨hrels, _ | ⟨hsyms, _⟩⟩⟩⟩⟩⟩ := hdesc
    have hrelocations := readTableAt_of_describes 4 hrels
      (readTable_tableBytes file.relocations hcount hlong
        (fun r hr rest => readRelocation_append rest (hfile.relocations r hr)))
    have hsymbols := readTableAt_of_describes 5 hsyms
      (readTable_tableBytes file.symbols hcount' hlong'
        (fun s hs rest => readSymbol_append rest (hfile.symbols s hs)))
    simp only [ofHeaders, readSection_of_describes _ htext, readSection_of_describes _ hdata,
      readSection_of_describes _ hktext, readSection_of_describes _ hkdata, hrelocations, hsymbols,
      kernelStart_of_describes hktext, hkind, hentry, settled, hrel, if_true, PerSegment.ofFn, bind,
      Except.bind, pure, Except.pure]
  · simp only [contents, hrel, if_false, Segment.all, List.map_cons, List.map_nil] at hdesc
    obtain _ | ⟨htext, _ | ⟨hdata, _ | ⟨hktext, _ | ⟨hkdata, _ | _⟩⟩⟩⟩ := hdesc
    simp only [ofHeaders, readSection_of_describes _ htext, readSection_of_describes _ hdata,
      readSection_of_describes _ hktext, readSection_of_describes _ hkdata,
      kernelStart_of_describes hktext, hkind, hentry, settled, hrel, if_false, PerSegment.ofFn, bind,
      Except.bind, pure, Except.pure]

/-- The header that an object of a kind is written with. -/
def headerOf (file : ObjectFile) (count : Nat) : FileHeader :=
  { identity := identity, kind := file.kind.code, machine := machineCode, version := formatVersion,
    entry := file.entry, headersAt := UInt64.ofNat fileHeaderSize,
    headerSize := UInt16.ofNat programHeaderSize, headerCount := UInt16.ofNat count }

/-- An object that can be written has as many program headers as its kind asks for. -/
theorem headersOf?_eq {file : ObjectFile} (h : file.kind = .relocatable ∨ file.kind = .executable) :
    headersOf? file.kind = some file.contents.length ∧
      (file.contents.length = 4 ∨ file.contents.length = 6) := by
  rcases h with hkind | hkind <;> simp [headersOf?, contents, hkind, Segment.all, FileKind.relocatable,
    FileKind.executable]

/-- The bytes of an object: its header, the placed program headers, and the contents. -/
theorem encode_eq {file : ObjectFile} (h : file.kind = .relocatable ∨ file.kind = .executable) :
    file.encode = .ok ((headerOf file file.contents.length).bytes ++
      ((place (UInt64.ofNat (fileHeaderSize + programHeaderSize * file.contents.length))
        (file.contents.map (·.1))).flatMap ProgramHeader.bytes ++ file.contents.flatMap (·.2))) := by
  rw [encode, (headersOf?_eq h).1]
  simp only [headerOf, List.append_assoc]

/-- A header that was written is accepted. -/
theorem check_headerOf {file : ObjectFile} (h : file.kind = .relocatable ∨ file.kind = .executable) :
    (headerOf file file.contents.length).check = .ok () := by
  obtain ⟨hof, hfour | hsix⟩ := headersOf?_eq h
  · rw [hfour] at hof ⊢
    simp [FileHeader.check, headerOf, hof, identity, programHeaderSize]
  · rw [hsix] at hof ⊢
    simp [FileHeader.check, headerOf, hof, identity, programHeaderSize]

/-- Bytes that start with an accepted header, right before its program headers, are read by these. -/
theorem decode_append {h : FileHeader} {rest : List UInt8} (hid : h.identity.length = 16)
    (hcheck : h.check = .ok ()) (hat : h.headersAt = UInt64.ofNat fileHeaderSize)
    (hinside : h.headerCount.toNat * programHeaderSize ≤ rest.length)
    (hbound : (h.bytes ++ rest).length < 2 ^ 64) :
    decode (h.bytes ++ rest) = ofHeaders (h.bytes ++ rest) h (readHeaders h.headerCount.toNat rest) := by
  have hheader := length_fileHeaderBytes hid
  have hlen : (h.bytes ++ rest).length = 64 + rest.length := by
    rw [List.length_append, hheader]
    rfl
  have hlong : ¬ (h.bytes ++ rest).length < fileHeaderSize := by
    rw [List.length_append, hheader]
    omega
  -- The end of the program headers does not wrap, because it lies inside the bytes.
  have hstop : (h.headersAt + UInt64.ofNat (h.headerCount.toNat * programHeaderSize)).toNat =
      64 + h.headerCount.toNat * programHeaderSize := by
    have hsmall : h.headerCount.toNat * programHeaderSize < 2 ^ 64 := by omega
    have hsize : (UInt64.ofNat (h.headerCount.toNat * programHeaderSize)).toNat =
        h.headerCount.toNat * programHeaderSize := UInt64.toNat_ofNat_of_lt' hsmall
    have hfront : (UInt64.ofNat fileHeaderSize).toNat = 64 := rfl
    rw [hat, UInt64.toNat_add, hfront, hsize, Nat.mod_eq_of_lt (by omega)]
  have hend : ¬ UInt64.ofNat (h.bytes ++ rest).length <
      h.headersAt + UInt64.ofNat (h.headerCount.toNat * programHeaderSize) := by
    rw [UInt64.lt_iff_toNat_lt, hstop, UInt64.toNat_ofNat_of_lt' hbound]
    omega
  have hstart : ¬ h.headersAt < UInt64.ofNat fileHeaderSize := by
    rw [hat]
    exact UInt64.lt_irrefl _
  have hwrap : ¬ h.headersAt + UInt64.ofNat (h.headerCount.toNat * programHeaderSize) <
      h.headersAt := by
    rw [UInt64.lt_iff_toNat_lt, hstop, hat]
    exact Nat.not_lt.2 (Nat.le_add_right 64 _)
  have hdrop : (h.bytes ++ rest).drop h.headersAt.toNat = rest := by
    rw [hat]
    exact List.drop_left' hheader
  rw [decode, if_neg hlong, read_fileHeaderBytes rest hid]
  simp only [hcheck, hstart, hend, hwrap, hdrop, decide_false, Bool.or_self, Bool.false_eq_true,
    if_false]

/-! ### The bytes of an object -/

/-- The program headers that an object is written with. -/
def placedHeaders (file : ObjectFile) : List ProgramHeader :=
  place (UInt64.ofNat (fileHeaderSize + programHeaderSize * file.contents.length))
    (file.contents.map (·.1))

/-- The bytes of an object before its contents. -/
def front (file : ObjectFile) : List UInt8 :=
  (headerOf file file.contents.length).bytes ++ file.placedHeaders.flatMap ProgramHeader.bytes

theorem length_placedHeaders (file : ObjectFile) :
    file.placedHeaders.length = file.contents.length := by
  rw [placedHeaders, length_place, List.length_map]

theorem length_front (file : ObjectFile) :
    file.front.length = fileHeaderSize + programHeaderSize * file.contents.length := by
  rw [front, List.length_append, length_fileHeaderBytes rfl, length_flatMap_programHeaderBytes,
    length_placedHeaders]

/-- The bytes of an object: the headers, and then the contents. -/
theorem encode_eq_front {file : ObjectFile} (h : file.kind = .relocatable ∨ file.kind = .executable) :
    file.encode = .ok (file.front ++ file.contents.flatMap (·.2)) := by
  rw [encode_eq h, front, List.append_assoc]
  rfl

theorem length_encoded (file : ObjectFile) :
    (file.front ++ file.contents.flatMap (·.2)).length = file.encodedLength := by
  rw [List.length_append, length_front, encodedLength]

/-- Both numbers of program headers are small, so neither their count nor their end wraps. -/
theorem headerCount_eq {file : ObjectFile} (h : file.kind = .relocatable ∨ file.kind = .executable) :
    (headerOf file file.contents.length).headerCount.toNat = file.placedHeaders.length ∧
      (UInt64.ofNat (fileHeaderSize + programHeaderSize * file.contents.length)).toNat =
        file.front.length := by
  rw [length_placedHeaders, length_front]
  rcases (headersOf?_eq h).2 with hfour | hsix
  · rw [hfour]
    exact ⟨rfl, rfl⟩
  · rw [hsix]
    exact ⟨rfl, rfl⟩

/-- The headers of an object are read from the front of its bytes, whatever follows them. -/
theorem decode_front {file : ObjectFile} (h : file.kind = .relocatable ∨ file.kind = .executable)
    {rest : List UInt8} (hbound : (file.front ++ rest).length < 2 ^ 64) :
    decode (file.front ++ rest) =
      ofHeaders (file.front ++ rest) (headerOf file file.contents.length) file.placedHeaders := by
  rw [front, List.append_assoc] at hbound ⊢
  rw [decode_append rfl (check_headerOf h) rfl, (headerCount_eq h).1, readHeaders_flatMap]
  · rw [(headerCount_eq h).1, List.length_append, length_flatMap_programHeaderBytes, Nat.mul_comm]
    exact Nat.le_add_right _ _
  · exact hbound

/-- The headers of an object describe its contents. -/
theorem Encodable.describes {file : ObjectFile} (h : file.Encodable) :
    List.Forall₂ (Describes (file.front ++ file.contents.flatMap (·.2))) file.placedHeaders
      file.contents := by
  refine describes_place file.contents _ _ (headerCount_eq h.kind).2 ?_ ?_
  · intro part hpart
    exact fileSize_of_mem_contents hpart (h.length_lt part hpart)
  · rw [length_encoded]
    exact h.length

/-- An object that fits the format is written, and what is read back is the object settled. -/
theorem decode_encode {file : ObjectFile} (h : file.Encodable) :
    ∃ bytes, file.encode = .ok bytes ∧ bytes.length = file.encodedLength ∧
      decode bytes = .ok file.settled := by
  refine ⟨_, encode_eq_front h.kind, length_encoded file, ?_⟩
  rw [decode_front h.kind]
  · exact ofHeaders_of_describes h rfl rfl h.describes
  · rw [length_encoded]
    exact h.length

/-! ### What can be read -/

/-- A section that is read lies in the bytes, and its size in memory is written down. -/
theorem readSection_eq_ok {bytes : List UInt8} {index : Nat} {s : Segment} {p : ProgramHeader}
    {content : Section} (hlen : bytes.length < 2 ^ 64) (h : readSection bytes index s p = .ok content) :
    content.data.size ≤ bytes.length ∧ content.settled = content := by
  rw [readSection] at h
  split at h
  · cases h
  · rename_i chunk hchunk
    split at h
    · cases h
    · rename_i hheader
      obtain rfl := Except.ok.inj h
      rw [chunk?] at hchunk
      split at hchunk
      · rename_i hinside
        have hsize : chunk.length = p.fileSize.toNat := by
          rw [← Option.some.inj hchunk, List.length_take, List.length_drop]
          omega
        have hroom : ¬ p.memSize < p.fileSize := by
          simp only [ne_eq, Bool.or_eq_true, decide_eq_true_eq, not_or] at hheader
          exact hheader.2
        have hsize64 : Bytes.size64 (Bytes.ofList chunk) = p.fileSize := by
          apply UInt64.toNat_inj.1
          rw [Bytes.toNat_size64 (by rw [Bytes.size_ofList]; omega), Bytes.size_ofList, hsize]
        refine ⟨by rw [Bytes.size_ofList]; omega, ?_⟩
        rw [Section.settled, Section.size, hsize64, if_neg hroom]
      · cases hchunk

/-- A table that is read satisfies what its entries satisfy, and is written with no more bytes than
    there are. -/
theorem readTableAt_eq_ok {α : Type} {entry : List UInt8 → Except Error (α × List UInt8)}
    {bytesOf : α → List UInt8} {P : α → Prop}
    (hentry : ∀ {a bytes rest}, entry bytes = .ok (a, rest) →
      P a ∧ bytes.length = (bytesOf a).length + rest.length)
    {kind : HeaderKind} {bytes : List UInt8} {index : Nat} {p : ProgramHeader} {entries : List α}
    (h : readTableAt entry kind bytes index p = .ok entries) :
    (∀ a ∈ entries, P a) ∧ (tableBytes bytesOf entries).length ≤ bytes.length := by
  rw [readTableAt] at h
  split at h
  · cases h
  · rename_i chunk hchunk
    split at h
    · cases h
    · split at h
      · cases h
      · rename_i found hread
        obtain rfl := Except.ok.inj h
        obtain ⟨hfits, hlen⟩ := readTable_eq_ok hentry hread
        refine ⟨hfits, hlen.trans ?_⟩
        rw [chunk?] at hchunk
        split at hchunk
        · rw [← Option.some.inj hchunk, List.length_take, List.length_drop]
          omega
        · cases hchunk

/-- An accepted header has as many program headers as its kind asks for. -/
theorem headersOf?_of_check {h : FileHeader} (hcheck : h.check = .ok ()) :
    headersOf? ⟨h.kind⟩ = some h.headerCount.toNat := by
  simp only [FileHeader.check] at hcheck
  repeat
    split at hcheck
    · cases hcheck
  rename_i count hcount hsame
  rw [hcount, Decidable.not_not.1 hsame]

/-- Bytes are read through as many program headers as the kind of the object asks for. -/
theorem decode_eq_ok {bytes : List UInt8} {file : ObjectFile} (h : decode bytes = .ok file) :
    ∃ header headers, headersOf? ⟨header.kind⟩ = some headers.length ∧
      ofHeaders bytes header headers = .ok file := by
  rw [decode] at h
  split at h
  · cases h
  · simp only at h
    split at h
    · cases h
    · rename_i hcheck
      split at h
      · cases h
      · split at h
        · cases h
        · refine ⟨_, _, ?_, h⟩
          rw [length_readHeaders]
          exact headersOf?_of_check hcheck

/-- What is known of an object that was read from `length` bytes. -/
structure ReadFrom (length : Nat) (file : ObjectFile) : Prop where
  sections : ∀ s, (file.sections.get s).data.size ≤ length ∧
    (file.sections.get s).settled = file.sections.get s
  tables : file.kind = .executable ∧ file.relocations = [] ∧ file.symbols = [] ∨
    file.kind = .relocatable ∧ (∀ r ∈ file.relocations, RelocationFits r) ∧
      (tableBytes relocationBytes file.relocations).length ≤ length ∧
      (∀ s ∈ file.symbols, SymbolFits s) ∧ (tableBytes symbolBytes file.symbols).length ≤ length

/-- The headers of an executable are four, those of a relocatable object six. -/
theorem kind_of_headersOf? {kind : FileKind} {count : Nat} (h : headersOf? kind = some count) :
    kind = .executable ∧ count = 4 ∨ kind = .relocatable ∧ count = 6 := by
  rw [headersOf?] at h
  split at h
  · rename_i hrel
    exact .inr ⟨hrel, (Option.some.inj h).symm⟩
  · split at h
    · rename_i hexe
      exact .inl ⟨hexe, (Option.some.inj h).symm⟩
    · cases h

theorem readFrom_of_ofHeaders {bytes : List UInt8} {header : FileHeader} {headers : List ProgramHeader}
    {file : ObjectFile} (hlen : bytes.length < 2 ^ 64)
    (hcount : headersOf? ⟨header.kind⟩ = some headers.length)
    (h : ofHeaders bytes header headers = .ok file) : file.ReadFrom bytes.length := by
  obtain ⟨hkind, hcount⟩ | ⟨hkind, hcount⟩ := kind_of_headersOf? hcount
  · match headers, hcount with
    | [p0, p1, p2, p3], _ =>
      simp only [ofHeaders, bind_eq_ok] at h
      obtain ⟨text, htext, data, hdata, ktext, hktext, kdata, hkdata, hfile⟩ := h
      obtain rfl := Except.ok.inj hfile
      refine ⟨?_, .inl ⟨hkind, rfl, rfl⟩⟩
      rintro (_ | _ | _ | _)
      · exact readSection_eq_ok hlen htext
      · exact readSection_eq_ok hlen hdata
      · exact readSection_eq_ok hlen hktext
      · exact readSection_eq_ok hlen hkdata
  · match headers, hcount with
    | [p0, p1, p2, p3, p4, p5], _ =>
      simp only [ofHeaders, bind_eq_ok] at h
      obtain ⟨text, htext, data, hdata, ktext, hktext, kdata, hkdata, relocations, hrelocations,
        symbols, hsymbols, hfile⟩ := h
      obtain rfl := Except.ok.inj hfile
      obtain ⟨hrelFits, hrelLen⟩ := readTableAt_eq_ok readRelocation_eq_ok hrelocations
      obtain ⟨hsymFits, hsymLen⟩ := readTableAt_eq_ok readSymbol_eq_ok hsymbols
      refine ⟨?_, .inr ⟨hkind, hrelFits, hrelLen, hsymFits, hsymLen⟩⟩
      rintro (_ | _ | _ | _)
      · exact readSection_eq_ok hlen htext
      · exact readSection_eq_ok hlen hdata
      · exact readSection_eq_ok hlen hktext
      · exact readSection_eq_ok hlen hkdata

/-- An object that was read is settled. -/
theorem ReadFrom.settled_eq {length : Nat} {file : ObjectFile} (h : file.ReadFrom length) :
    file.settled = file := by
  have hsections : (PerSegment.ofFn fun s => (file.sections.get s).settled) = file.sections := by
    simp only [PerSegment.ofFn, (h.sections _).2]
    rfl
  rw [settled, hsections]
  rcases h.tables with ⟨hkind, hrel, hsym⟩ | ⟨hkind, -⟩
  · have hnot : ¬ file.kind = .relocatable := by
      rw [hkind]
      decide
    rw [if_neg hnot, if_neg hnot, ← hrel, ← hsym]
  · rw [if_pos hkind, if_pos hkind]

/-- An object that was read from few enough bytes fits the format: each of its parts was read from these
    bytes, even if the parts overlap there. -/
theorem ReadFrom.encodable {length : Nat} {file : ObjectFile} (h : file.ReadFrom length)
    (hlen : length < 2 ^ 60) : file.Encodable := by
  have htext := (h.sections .text).1
  have hdata := (h.sections .data).1
  have hktext := (h.sections .ktext).1
  have hkdata := (h.sections .kdata).1
  rcases h.tables with ⟨hkind, hrel, hsym⟩ | ⟨hkind, hrel, hrelLen, hsym, hsymLen⟩
  · have hnot : ¬ file.kind = .relocatable := by
      rw [hkind]
      decide
    refine ⟨.inr hkind, by simp [hrel], by simp [hsym], ?_⟩
    simp only [encodedLength, contents, hnot, if_false, Segment.all, List.map_cons, List.map_nil,
      List.flatMap_cons, List.flatMap_nil, List.length_append, List.length_cons, List.length_nil,
      Bytes.length_toList, fileHeaderSize, programHeaderSize]
    omega
  · refine ⟨.inl hkind, hrel, hsym, ?_⟩
    simp only [encodedLength, contents, hkind, if_true, Segment.all, List.map_cons, List.map_nil,
      List.flatMap_cons, List.flatMap_nil, List.length_append, List.length_cons, List.length_nil,
      List.cons_append, List.nil_append, Bytes.length_toList, fileHeaderSize, programHeaderSize]
    omega

theorem readFrom_of_decode {bytes : List UInt8} {file : ObjectFile} (hlen : bytes.length < 2 ^ 64)
    (h : decode bytes = .ok file) : file.ReadFrom bytes.length := by
  obtain ⟨header, headers, hcount, hfile⟩ := decode_eq_ok h
  exact readFrom_of_ofHeaders hlen hcount hfile

/-- Decoding undoes encoding of whole objects: an object that fits the format is written and read back
    settled, and an object read from fewer than 2^60 bytes fits the format, so that writing it and reading
    it again gives the same object. -/
theorem decode_encode_roundTrip :
    (∀ file : ObjectFile, file.Encodable → ∃ bytes, file.encode = .ok bytes ∧
        bytes.length = file.encodedLength ∧ decode bytes = .ok file.settled) ∧
      ∀ (bytes : List UInt8) (file : ObjectFile), bytes.length < 2 ^ 60 → decode bytes = .ok file →
        file.Encodable ∧ ∃ again, file.encode = .ok again ∧ decode again = .ok file := by
  refine ⟨fun file h => decode_encode h, ?_⟩
  intro bytes file hlen hdecode
  have hread := readFrom_of_decode (by omega) hdecode
  have hfits := hread.encodable hlen
  obtain ⟨again, hencode, -, hagain⟩ := decode_encode hfits
  rw [hread.settled_eq] at hagain
  exact ⟨hfits, again, hencode, hagain⟩

/-- A kernel object with code that declares less memory than it has bytes, a relocation and a symbol. -/
def kernelObject : ObjectFile where
  kind := .relocatable
  entry := 0x80000000
  kernelStart := true
  sections :=
    { (empty .relocatable).sections with
      ktext := { addr := Segment.ktextBase, data := Bytes.ofList [0x20, 0, 0, 0], memSize := 1 } }
  relocations := [⟨0, [ascii 'x'], ⟨4⟩, .global⟩]
  symbols := [⟨[ascii 'y'], ⟨3⟩, .internal, 4⟩]

theorem decode_encode_kernelObject : kernelObject.Encodable ∧ ∃ bytes, kernelObject.encode = .ok bytes ∧
    decode bytes = .ok kernelObject.settled ∧ ∃ again, kernelObject.settled.encode = .ok again ∧
      decode again = .ok kernelObject.settled := by
  have hlen : kernelObject.encodedLength = 454 := by decide
  have hfits : kernelObject.Encodable := by
    refine ⟨.inl rfl, ?_, ?_, by rw [hlen]; decide⟩
    · intro r hr
      obtain rfl := List.mem_singleton.1 hr
      exact ⟨by decide, by decide, by decide⟩
    · intro s hs
      obtain rfl := List.mem_singleton.1 hs
      exact ⟨by decide, by decide, by decide⟩
  obtain ⟨bytes, hencode, hbytes, hdecode⟩ := decode_encode_roundTrip.1 kernelObject hfits
  have hshort : bytes.length < 2 ^ 60 := by
    rw [hbytes, hlen]
    decide
  obtain ⟨-, again, hagain, hsame⟩ := decode_encode_roundTrip.2 bytes _ hshort hdecode
  exact ⟨hfits, bytes, hencode, hdecode, again, hagain, hsame⟩

end ObjectFile

end VectorRisc
