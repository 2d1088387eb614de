import FastCgi.Forms

/-! # Multipart bodies, written and read

A body in `multipart/form-data` has a part for each form field and each file: a header of one or
two lines, an empty line, and the content. `encodeParts` writes the parts behind the separators of
a content type, and `parseFormInput_encodeParts` says that `parseFormInput` reads them back, as long
as the boundary does not occur in them.

The parser finds the end of a part, the end of its header and the attributes in it by searching. So
most lemmas here say where a pattern is found first. -/

namespace FastCgi

open StdString

namespace Cgicc

/-! ## Parts -/

/-- A part of a multipart body. -/
inductive Part
  | field (entry : FormEntry)
  | file (file : FormFile)
  deriving DecidableEq, Repr

namespace Part

/-- The name in the header of a part. -/
def name : Part → Bytes
  | field e => e.name
  | file f => f.name

/-- What is behind the header. -/
def content : Part → Bytes
  | field e => e.value
  | file f => f.data

/-- The header behind the name: that of a file has the name and the type of the file. -/
def details : Part → Bytes
  | field _ => headerEnd
  | file f => literal "; filename=" ++ 34 :: (formUrlencode f.filename ++ 34 ::
      (literal "\r\nContent-Type: " ++ (f.dataType ++ headerEnd)))

/-- The start of all headers. -/
def disposition : Bytes := literal "Content-Disposition: form-data; name="

/-- The header of a part. -/
def header (p : Part) : Bytes := disposition ++ 34 :: (p.name ++ 34 :: p.details)

/-- A part as it is sent, up to the separator behind it. -/
def encode (p : Part) : Bytes := p.header ++ (p.content ++ [13, 10])

/-- A part that can be sent. A name has neither a quote nor a line break in it, and does not look
like the attributes that are searched for; a file has a name and a type. -/
structure Sendable (p : Part) : Prop where
  quote : 34 ∉ p.name
  line : 13 ∉ p.name
  filename : ¬ literal "filename=" <:+ p.name
  file : ∀ f, p = .file f → ¬ literal "Content-Type: " <:+: f.name ∧ f.filename ≠ [] ∧
    f.dataType ≠ [] ∧ 13 ∉ f.dataType

/-- What a part adds. -/
def addTo (cgi : Cgicc) : Part → Cgicc
  | field e => { cgi with formData := cgi.formData ++ [e] }
  | file f => { cgi with formFiles := cgi.formFiles ++ [f] }

end Part

theorem extractBetween_eq {data separator1 separator2 text : Bytes} {i : Nat} (rest : Bytes)
    (hne₁ : separator1 ≠ []) (hne₂ : separator2 ≠ []) (h₁ : indexOf separator1 data = some i)
    (hdata : data.drop (i + separator1.length) = text ++ rest)
    (h₂ : indexOf separator2 (text ++ rest) = some text.length) :
    extractBetween data separator1 separator2 = .ok text := by
  have hstart : find data separator1 0 = some i := by
    rw [find_eq hne₁, List.drop_zero, h₁, Option.map_some, Nat.zero_add]
  have hlimit : find data separator2 (i + separator1.length) =
      some (i + separator1.length + text.length) := by
    rw [find_eq hne₂, hdata, h₂, Option.map_some]
  have hend := (le_of_find hstart).2
  have hsub : substr data (i + separator1.length)
      (subPos (some (i + separator1.length + text.length)) (i + separator1.length)) =
        .ok text := by
    rw [subPos_of_le (Nat.le_add_right _ _), substr_some hend, hdata, Nat.add_sub_cancel_left,
      List.take_left]
  simp only [extractBetween, hstart, hlimit, hsub, liftM_ok]

theorem extractBetween_eq_nil {data separator1 : Bytes} (separator2 : Bytes)
    (hne : separator1 ≠ []) (h : indexOf separator1 data = none) :
    extractBetween data separator1 separator2 = .ok [] := by
  have hstart : find data separator1 0 = none := by
    rw [find_eq hne, List.drop_zero, h, Option.map_none]
  simp only [extractBetween, hstart]
  rfl

/-- The name is read out of a header. -/
theorem extractName (p : Part) (h : p.Sendable) :
    extractBetween p.header (literal "name=\"") (literal "\"") = .ok p.name := by
  have hpiece : indexOf (literal "name=\"") (Part.disposition ++ [34]) = some 32 := by decide
  have hheader : p.header = (Part.disposition ++ [34]) ++ (p.name ++ 34 :: p.details) := by
    simp [Part.header]
  refine extractBetween_eq (i := 32) (34 :: p.details) (by decide) (by decide) ?_ ?_ ?_
  · rw [hheader]
    exact indexOf_of_piece hpiece _
  · rw [hheader]
    exact List.drop_left' (by decide)
  · exact indexOf_behind h.quote p.details

/-- The pattern of an attribute is not found in front of the second quote of a header. -/
theorem indexOf_filename (p : Part) (h : p.Sendable) :
    indexOf (literal "filename=\"") p.header =
      ((indexOf (literal "filename=\"") p.details).map (p.name.length + 1 + ·)).map
        (Part.disposition.length + 1 + ·) := by
  have hfirst : ¬ literal "filename=" <:+ Part.disposition := by decide
  have hpattern : literal "filename=\"" = literal "filename=" ++ [34] := by decide
  rw [hpattern, Part.header, indexOf_quoted (by decide) (by decide) hfirst,
    indexOf_quoted (by decide) h.quote h.filename]

/-- A field has no file name. -/
theorem extractFilename_field {e : FormEntry} (h : (Part.field e).Sendable) :
    extractBetween (Part.field e).header (literal "filename=\"") (literal "\"") = .ok [] := by
  refine extractBetween_eq_nil _ (by decide) ?_
  have hnone : indexOf (literal "filename=\"") headerEnd = none := by decide
  rw [indexOf_filename _ h, Part.details, hnone]
  rfl

/-- The encoded name of a file is read out of its header. -/
theorem extractFilename_file {f : FormFile} (h : (Part.file f).Sendable) :
    extractBetween (Part.file f).header (literal "filename=\"") (literal "\"") =
      .ok (formUrlencode f.filename) := by
  let rest : Bytes := 34 :: (literal "\r\nContent-Type: " ++ (f.dataType ++ headerEnd))
  have hpiece : indexOf (literal "filename=\"") (literal "; filename=\"") = some 2 := by decide
  have hdetails : (Part.file f).details =
      literal "; filename=\"" ++ (formUrlencode f.filename ++ rest) := by
    rw [Part.details, show literal "; filename=\"" = literal "; filename=" ++ [34] from by decide]
    simp [rest]
  have hindex : indexOf (literal "filename=\"") (Part.file f).header =
      some (Part.disposition.length + 1 + (f.name.length + 1 + 2)) := by
    rw [indexOf_filename _ h, hdetails, indexOf_of_piece hpiece]
    rfl
  refine extractBetween_eq rest (by decide) (by decide) hindex ?_ ?_
  · have hheader : (Part.file f).header = (Part.disposition ++ 34 :: (f.name ++
        34 :: literal "; filename=\"")) ++ (formUrlencode f.filename ++ rest) := by
      rw [Part.header, hdetails]
      simp [Part.name]
    rw [hheader]
    refine List.drop_left' ?_
    simp only [List.length_append, List.length_cons]
    have hlength : (literal "; filename=\"").length = 12 := by decide
    have hlength' : (literal "filename=\"").length = 10 := by decide
    omega
  · exact indexOf_behind (not_mem_formUrlencode (by decide) f.filename) _

/-- The type of a file is read out of its header. -/
theorem extractType_file {f : FormFile} (h : (Part.file f).Sendable) :
    extractBetween (Part.file f).header (literal "Content-Type: ") (literal "\r\n\r\n") =
      .ok f.dataType := by
  obtain ⟨hname, -, -, hline⟩ := h.file f rfl
  let front : Bytes := Part.disposition ++ 34 :: (f.name ++ 34 :: (literal "; filename=" ++
    34 :: (formUrlencode f.filename ++ 34 :: literal "\r\n")))
  have hfilename : ¬ literal "Content-Type: " <:+: formUrlencode f.filename := by
    intro hin
    exact not_mem_formUrlencode (by decide) f.filename (hin.subset (a := 58) (by decide))
  have hpiece : indexOf (literal "Content-Type: ") (literal "\r\nContent-Type: ") = some 2 := by
    decide
  have hindex : indexOf (literal "Content-Type: ") (Part.file f).header = some front.length := by
    rw [Part.header, Part.details, Part.name, indexOf_past (by decide) (by decide),
      indexOf_past (by decide) hname, indexOf_past (by decide) (by decide),
      indexOf_past (by decide) hfilename, indexOf_of_piece hpiece]
    simp only [Option.map_some, front, List.length_append, List.length_cons]
    have hlength : (literal "\r\n").length = 2 := by decide
    exact congrArg some (by omega)
  refine extractBetween_eq headerEnd (by decide) (by decide) hindex ?_ ?_
  · have hheader : (Part.file f).header =
        (front ++ literal "Content-Type: ") ++ (f.dataType ++ headerEnd) := by
      have hsplit : literal "\r\nContent-Type: " = literal "\r\n" ++ literal "Content-Type: " := by
        decide
      rw [Part.header, Part.details, hsplit]
      simp [front, Part.name]
    rw [hheader]
    exact List.drop_left' (by rw [List.length_append])
  · have hbehind : indexOf headerEnd (f.dataType ++ (headerEnd ++ [])) = some f.dataType.length :=
      indexOf_behind hline []
    rwa [List.append_nil] at hbehind

/-- The header of a field is a single line. -/
theorem header_field {e : FormEntry} (h : (Part.field e).Sendable) :
    ∃ line, 13 ∉ line ∧ (Part.field e).header = line ++ headerEnd := by
  refine ⟨Part.disposition ++ 34 :: (e.name ++ [34]), ?_, ?_⟩
  · simp only [List.mem_append, List.mem_cons, not_or]
    exact ⟨by decide, by decide, h.line, by decide, by simp⟩
  · simp [Part.header, Part.details, Part.name]

/-- The header of a file has two lines. -/
theorem header_file {f : FormFile} (h : (Part.file f).Sendable) :
    ∃ line₁ line₂, 13 ∉ line₁ ∧ 13 ∉ line₂ ∧
      (Part.file f).header = line₁ ++ 13 :: 10 :: 67 :: (line₂ ++ headerEnd) := by
  obtain ⟨-, -, -, htype⟩ := h.file f rfl
  refine ⟨Part.disposition ++ 34 :: (f.name ++ 34 :: (literal "; filename=" ++
    34 :: (formUrlencode f.filename ++ [34]))), literal "ontent-Type: " ++ f.dataType, ?_, ?_, ?_⟩
  · simp only [List.mem_append, List.mem_cons, not_or]
    exact ⟨by decide, by decide, h.line, by decide, by decide, by decide,
      not_mem_formUrlencode (by decide) f.filename, by decide, by simp⟩
  · rw [List.mem_append, not_or]
    exact ⟨by decide, htype⟩
  · have hsplit : literal "\r\nContent-Type: " = 13 :: 10 :: 67 :: literal "ontent-Type: " := by
      decide
    simp [Part.header, Part.details, Part.name, hsplit]

/-- The header of a part ends with the first empty line. -/
theorem indexOf_headerEnd {p : Part} (h : p.Sendable) (s : Bytes) :
    ∃ n, n + headerEnd.length = p.header.length ∧ indexOf headerEnd (p.header ++ s) = some n := by
  cases p with
  | field e =>
      obtain ⟨line, hline, hheader⟩ := header_field h
      refine ⟨line.length, by rw [hheader, List.length_append], ?_⟩
      rw [hheader, List.append_assoc]
      exact indexOf_behind hline s
  | file f =>
      obtain ⟨line₁, line₂, hline₁, hline₂, hheader⟩ := header_file h
      have hline₂' : 13 ∉ 10 :: 67 :: line₂ := by simp [hline₂]
      have hbehind : indexOf headerEnd (10 :: 67 :: line₂ ++ (headerEnd ++ s)) =
          some (line₂.length + 2) := indexOf_behind hline₂' s
      -- the first line break is followed by the second line of the header
      have hnot : ¬ headerEnd <+: 13 :: (10 :: 67 :: line₂ ++ (headerEnd ++ s)) := by
        intro hpre
        have htake := List.prefix_iff_eq_take.mp hpre
        simp [headerEnd, literal] at htake
      refine ⟨line₁.length + (line₂.length + 3), ?_, ?_⟩
      · rw [hheader]
        simp only [List.length_append, List.length_cons]
        omega
      · have hskip : indexOf headerEnd
            (line₁ ++ 13 :: (10 :: 67 :: line₂ ++ (headerEnd ++ s))) =
              (indexOf headerEnd (13 :: (10 :: 67 :: line₂ ++ (headerEnd ++ s)))).map
                (line₁.length + ·) := indexOf_skip hline₁ _
        rw [indexOf_cons_of_ne hnot, hbehind] at hskip
        rw [hheader]
        simpa using hskip

theorem parseHeader_field {e : FormEntry} (h : (Part.field e).Sendable) :
    ∃ d t, parseHeader (Part.field e).header = .ok ⟨d, e.name, [], t⟩ := by
  obtain ⟨d, hd⟩ := extractBetween_ok (Part.field e).header (literal "Content-Disposition: ")
    (literal ";")
  obtain ⟨t, ht⟩ := extractBetween_ok (Part.field e).header (literal "Content-Type: ")
    (literal "\r\n\r\n")
  refine ⟨d, t, ?_⟩
  rw [parseHeader, hd, extractName _ h, extractFilename_field h, ht]
  rfl

theorem parseHeader_file {f : FormFile} (h : (Part.file f).Sendable) :
    ∃ d, parseHeader (Part.file f).header = .ok ⟨d, f.name, f.filename, f.dataType⟩ := by
  obtain ⟨d, hd⟩ := extractBetween_ok (Part.file f).header (literal "Content-Disposition: ")
    (literal ";")
  refine ⟨d, ?_⟩
  rw [parseHeader, hd, extractName _ h, extractFilename_file h, extractType_file h]
  show Except.ok _ = _
  rw [formUrldecode_formUrlencode]
  rfl

/-- A part is read back. -/
theorem parseMIME_encode (cgi : Cgicc) {p : Part} (h : p.Sendable) :
    parseMIME cgi p.encode = .ok (p.addTo cgi) := by
  obtain ⟨n, hn, hindex⟩ := indexOf_headerEnd h (p.content ++ [13, 10])
  have hfind : find p.encode headerEnd 0 = some n := by
    rw [find_eq headerEnd_ne_nil, List.drop_zero, Part.encode, hindex, Option.map_some,
      Nat.zero_add]
  have hlength : p.encode.length = p.header.length + 2 + p.content.length := by
    simp only [Part.encode, List.length_append, List.length_cons, List.length_nil]
    omega
  have hvalue : substr p.encode p.header.length
      (subPos (some p.encode.length) (p.header.length + 2)) = .ok p.content := by
    rw [hlength, subPos_of_le (Nat.le_add_right _ _), substr_some (by omega), Part.encode,
      List.drop_left, Nat.add_sub_cancel_left, List.take_left]
  have hhead : substr p.encode 0 (some p.header.length) = .ok p.header := by
    rw [substr_some (Nat.zero_le _), List.drop_zero, Part.encode, List.take_left]
  simp only [parseMIME, hfind, hn, hvalue, hhead, liftM_ok, bind, Except.bind]
  cases p with
  | field e =>
      obtain ⟨d, t, hparse⟩ := parseHeader_field h
      rw [hparse]
      rfl
  | file f =>
      obtain ⟨d, hparse⟩ := parseHeader_file h
      obtain ⟨-, hname, htype, -⟩ := h.file f rfl
      rw [hparse]
      simp only [List.isEmpty_iff, hname, htype, if_false]
      rfl

/-- Parts are read back one after the other. -/
theorem foldlM_parseMIME_encode (cgi : Cgicc) {ps : List Part} (h : ∀ p ∈ ps, p.Sendable) :
    (ps.map Part.encode).foldlM parseMIME cgi = .ok (ps.foldl Part.addTo cgi) := by
  induction ps generalizing cgi with
  | nil => rfl
  | cons p ps ih =>
      rw [List.map_cons, List.foldlM_cons, parseMIME_encode cgi (h p List.mem_cons_self)]
      exact ih (p.addTo cgi) fun p' hp' => h p' (List.mem_cons_of_mem _ hp')

/-! ## Multipart bodies -/

/-- The parts of a body in `multipart/form-data`: each behind a separator, and the terminator behind
the last one. -/
def encodeParts (contentType : Bytes) (ps : List Part) : Bytes :=
  ps.flatMap (fun p => separator contentType ++ p.encode) ++ terminator contentType

/-- A boundary that can be used for some parts: it is in one line, it is not all dashes, and behind
two dashes it does not occur in a part. -/
structure Separates (boundary : Bytes) (ps : List Part) : Prop where
  line : 13 ∉ boundary
  dash : ∃ c ∈ boundary, c ≠ 45
  parts : ∀ p ∈ ps, ¬ literal "--" ++ boundary <:+: p.header ++ p.content

theorem separator_eq (contentType : Bytes) :
    separator contentType = (literal "--" ++ boundaryOf contentType) ++ [13, 10] := by
  rw [separator, List.append_assoc]
  rfl

theorem terminator_eq (contentType : Bytes) :
    terminator contentType = (literal "--" ++ boundaryOf contentType) ++ [45, 45, 13, 10] := by
  rw [terminator, List.append_assoc]
  rfl

/-- A text that two dashes can be moved over is all dashes. -/
theorem eq_dash_of_append_comm {q : Bytes} (h : 45 :: 45 :: q = q ++ [45, 45]) :
    ∀ c ∈ q, c = 45 := by
  induction q with
  | nil => simp
  | cons d q ih =>
      obtain ⟨rfl, htail⟩ := List.cons.inj h
      intro c hc
      obtain rfl | hc := List.mem_cons.mp hc
      · rfl
      · exact ih htail c hc

/-- The separator does not occur in the terminator. -/
theorem indexOf_terminator {contentType : Bytes} (hline : 13 ∉ boundaryOf contentType)
    (hdash : ∃ c ∈ boundaryOf contentType, c ≠ 45) :
    indexOf (separator contentType) (terminator contentType) = none := by
  rw [indexOf_eq_none_iff, separator_eq, terminator_eq, show literal "--" = [45, 45] from by decide]
  rintro ⟨s, t, h⟩
  have hlength := congrArg List.length h
  simp only [List.length_append, List.length_cons, List.length_nil] at hlength
  -- both sides are the same up to their first line break
  have hfront : 13 ∉ [45, 45] ++ boundaryOf contentType ++ [45, 45] := by simp [hline]
  have hs : s <+: [45, 45] ++ boundaryOf contentType ++ [45, 45] := by
    have hwhole : s <+: s ++ ([45, 45] ++ boundaryOf contentType ++ [13, 10]) ++ t :=
      ⟨_, (List.append_assoc ..).symm⟩
    refine List.prefix_of_prefix_length_le hwhole ?_ ?_
    · rw [h]
      exact ⟨[13, 10], by simp⟩
    · simp only [List.length_append, List.length_cons, List.length_nil]
      omega
  have hmoved : s ++ ([45, 45] ++ boundaryOf contentType) =
      [45, 45] ++ boundaryOf contentType ++ [45, 45] := by
    refine eq_of_prefix_of_not_mem (x := 13) (B := [10]) ?_ hfront ⟨10 :: t, ?_⟩
    · rw [List.mem_append, not_or]
      exact ⟨fun hmem => hfront (hs.subset hmem), by simp [hline]⟩
    · simpa using h
  obtain ⟨c, hc, hne⟩ := hdash
  have htwo : s.length = 2 := by
    have hlen := congrArg List.length hmoved
    simp only [List.length_append, List.length_cons, List.length_nil] at hlen
    omega
  obtain ⟨x, y, rfl⟩ := List.length_eq_two.mp htwo
  simp only [List.cons_append, List.nil_append, List.cons.injEq] at hmoved
  exact hne (eq_dash_of_append_comm hmoved.2.2 c hc)

/-- A separator is not found in front of the end of a part. -/
theorem indexOf_encode {boundary : Bytes} {p : Part} (hline : 13 ∉ boundary)
    (h : ¬ literal "--" ++ boundary <:+: p.header ++ p.content) (q s : Bytes) :
    indexOf (literal "--" ++ boundary ++ q) (p.encode ++ s) =
      (indexOf (literal "--" ++ boundary ++ q) s).map (p.encode.length + ·) := by
  have hcr : 13 ∉ literal "--" ++ boundary := by
    rw [List.mem_append, not_or]
    exact ⟨by decide, hline⟩
  have hencode : p.encode ++ s = (p.header ++ p.content) ++ 13 :: ([10] ++ s) := by
    simp [Part.encode]
  have hskip : indexOf (literal "--" ++ boundary ++ q) ([10] ++ s) =
      (indexOf (literal "--" ++ boundary ++ q) s).map (1 + ·) :=
    indexOf_skip (x := 45) (A := [10]) (by decide) s
  rw [hencode, indexOf_past_append hcr h, hskip, Option.map_map]
  congr 1
  funext j
  simp only [Function.comp_apply, Part.encode, List.length_append, List.length_cons,
    List.length_nil]
  omega

/-- The pieces that are cut off a body are its parts. -/
theorem frames_encodeParts {contentType : Bytes} {p : Part} {ps : List Part}
    (h : Separates (boundaryOf contentType) (p :: ps)) :
    ∃ (pieces : List (Terminated (separator contentType)))
      (last : Terminated (terminator contentType)),
      (terminatedBy _ (separator_ne_nil contentType)).frames
        (p.encode ++ encodeParts contentType ps) = (pieces, last.1 ++ terminator contentType) ∧
      pieces.map (·.1) ++ [last.1] = (p :: ps).map Part.encode := by
  induction ps generalizing p with
  | nil =>
      -- the terminator is behind the last part, and no separator
      have hpart := h.parts p List.mem_cons_self
      have hfind : find (p.encode ++ terminator contentType) (separator contentType) 0 = none := by
        rw [find_eq (separator_ne_nil contentType), List.drop_zero, separator_eq,
          indexOf_encode h.line hpart, ← separator_eq, indexOf_terminator h.line h.dash]
        rfl
      have hcut := cut_of_find_none (separator_ne_nil contentType) hfind
      have hself := indexOf_self_append (terminator contentType) []
      rw [List.append_nil] at hself
      let last : Terminated (terminator contentType) := ⟨p.encode, by
        rw [terminator_eq, indexOf_encode h.line hpart, ← terminator_eq, hself]
        rfl⟩
      refine ⟨[], last, ?_, rfl⟩
      rw [List.drop_zero] at hcut
      exact (terminatedBy _ (separator_ne_nil contentType)).frames_of_cut_none hcut
  | cons p' ps ih =>
      have hpart := h.parts p List.mem_cons_self
      have hself := indexOf_self_append (separator contentType) []
      rw [List.append_nil] at hself
      let piece : Terminated (separator contentType) := ⟨p.encode, by
        rw [separator_eq, indexOf_encode h.line hpart, ← separator_eq, hself]
        rfl⟩
      have hcut := (terminatedBy _ (separator_ne_nil contentType)).cut_encode piece
        (p'.encode ++ encodeParts contentType ps)
      have hbody : p.encode ++ encodeParts contentType (p' :: ps) =
          (terminatedBy _ (separator_ne_nil contentType)).encode piece ++
            (p'.encode ++ encodeParts contentType ps) := by
        show _ = (p.encode ++ separator contentType) ++ _
        simp [encodeParts]
      obtain ⟨pieces, last, hframes, hpieces⟩ :=
        ih (p := p') ⟨h.line, h.dash, fun q hq => h.parts q (List.mem_cons_of_mem _ hq)⟩
      refine ⟨piece :: pieces, last, ?_, ?_⟩
      · rw [hbody, (terminatedBy _ (separator_ne_nil contentType)).frames_of_cut_some hcut, hframes]
      · rw [List.map_cons, List.cons_append, hpieces]
        rfl

/-- The parts of a body are the parts it was put together from. -/
theorem parts_encodeParts {contentType : Bytes} {ps : List Part}
    (h : Separates (boundaryOf contentType) ps) :
    parts contentType (encodeParts contentType ps) = ps.map Part.encode := by
  cases ps with
  | nil =>
      have hnone : find (terminator contentType) (separator contentType) 0 = none := by
        rw [find_eq (separator_ne_nil contentType), List.drop_zero,
          indexOf_terminator h.line h.dash]
        rfl
      have hsep : 4 ≤ (separator contentType).length := by simp [separator_eq, literal]
      have hterm : (terminator contentType).length = (separator contentType).length + 2 := by
        simp only [separator_eq, terminator_eq, List.length_append, List.length_cons]
        omega
      -- all but the last three characters are skipped
      have hafter : (afterSeparator contentType (encodeParts contentType [])).length = 3 := by
        show (afterSeparator contentType (terminator contentType)).length = 3
        rw [afterSeparator, hnone, List.length_drop, addPos]
        omega
      have hcut₁ := cut_of_find_none (separator_ne_nil contentType) (find_eq_none_of_length_lt
        (afterSeparator contentType (encodeParts contentType [])) 0 (by omega))
      have hcut₂ := cut_of_find_none (terminator_ne_nil contentType) (find_eq_none_of_length_lt
        (afterSeparator contentType (encodeParts contentType [])) 0 (by omega))
      rw [List.drop_zero] at hcut₁ hcut₂
      rw [parts, (terminatedBy _ (separator_ne_nil contentType)).frames_of_cut_none hcut₁, hcut₂]
      rfl
  | cons p ps =>
      have hstart :
          find (encodeParts contentType (p :: ps)) (separator contentType) 0 = some 0 := by
        rw [find_eq (separator_ne_nil contentType), List.drop_zero, encodeParts, List.flatMap_cons,
          List.append_assoc, List.append_assoc, indexOf_self_append]
        rfl
      have hbody : encodeParts contentType (p :: ps) =
          separator contentType ++ (p.encode ++ encodeParts contentType ps) := by
        simp [encodeParts]
      have hafter : afterSeparator contentType (encodeParts contentType (p :: ps)) =
          p.encode ++ encodeParts contentType ps := by
        rw [afterSeparator, hstart, addPos, Nat.zero_add, hbody, List.drop_left]
      obtain ⟨pieces, last, hframes, hpieces⟩ := frames_encodeParts h
      have hcut := (terminatedBy _ (terminator_ne_nil contentType)).cut_encode last []
      have hencode : (terminatedBy _ (terminator_ne_nil contentType)).encode last ++ [] =
          last.1 ++ terminator contentType := List.append_nil _
      rw [hencode] at hcut
      rw [parts, hafter, hframes, hcut]
      exact hpieces

/-- The form fields of some parts. -/
def fieldsOf (ps : List Part) : List FormEntry :=
  ps.filterMap fun
    | .field e => some e
    | .file _ => none

/-- The files of some parts. -/
def filesOf (ps : List Part) : List FormFile :=
  ps.filterMap fun
    | .field _ => none
    | .file f => some f

theorem foldl_addTo (cgi : Cgicc) (ps : List Part) :
    ps.foldl Part.addTo cgi = { cgi with
      formData := cgi.formData ++ fieldsOf ps
      formFiles := cgi.formFiles ++ filesOf ps } := by
  induction ps generalizing cgi with
  | nil => simp [fieldsOf, filesOf]
  | cons p ps ih =>
      rw [List.foldl_cons, ih]
      cases p <;> simp [Part.addTo, fieldsOf, filesOf]

/-- **The parts of a multipart body are read back**, in order. -/
theorem parseFormInput_encodeParts (cgi : Cgicc) {contentType : Bytes} {ps : List Part}
    (hm : isMultipart contentType = true) (hs : ∀ p ∈ ps, p.Sendable)
    (h : Separates (boundaryOf contentType) ps) :
    parseFormInput cgi (encodeParts contentType ps) contentType = .ok { cgi with
      formData := cgi.formData ++ fieldsOf ps
      formFiles := cgi.formFiles ++ filesOf ps } := by
  have hne : encodeParts contentType ps ≠ [] := by
    rw [encodeParts, terminator_eq]
    simp
  have hm' := hm
  rw [isMultipart, Bool.and_eq_true, Bool.not_eq_true'] at hm'
  rw [parseFormInput, if_neg (by simpa using hne), if_neg (by simp [hm'.1]), if_pos hm'.2,
    parseMultipart_eq cgi _ hm, parts_encodeParts h, foldlM_parseMIME_encode cgi hs, foldl_addTo]

/-- The content type of a body in `multipart/form-data`. -/
def multipartWith (boundary : Bytes) : Bytes := literal "multipart/form-data; boundary=" ++ boundary

theorem agree_self (s : Bytes) : agree s s = true := by
  induction s with
  | nil => rfl
  | cons a s ih => rw [agree, if_neg (by simp), ih]

/-- A string is equal to the start of one that begins with it. -/
theorem stringsAreEqual_append (s t : Bytes) : stringsAreEqual s (s ++ t) s.length = true := by
  simp [stringsAreEqual, agree_self]

/-- Strings with different first characters are not equal. -/
theorem stringsAreEqual_cons {a b : UInt8} (h : toupper a ≠ toupper b) (s t : Bytes) (n : Nat) :
    stringsAreEqual (a :: s) (b :: t) (n + 1) = false := by
  simp only [stringsAreEqual]
  split <;> simp [agree, h]

theorem isMultipart_multipartWith (boundary : Bytes) :
    isMultipart (multipartWith boundary) = true := by
  have hstandard : stringsAreEqual (multipartWith boundary) standardType standardType.length =
      false := stringsAreEqual_cons (by decide) _ _ 32
  have hmultipart : stringsAreEqual multipartType (multipartWith boundary) multipartType.length =
      true := by
    have hsplit : multipartWith boundary =
        multipartType ++ (literal "; boundary=" ++ boundary) := by
      rw [multipartWith, ← List.append_assoc, show literal "multipart/form-data; boundary=" =
        multipartType ++ literal "; boundary=" from by decide]
    rw [hsplit]
    exact stringsAreEqual_append _ _
  have hne : (multipartWith boundary).isEmpty = false := rfl
  rw [isMultipart, hne, hstandard, hmultipart]
  rfl

theorem boundaryOf_multipartWith (boundary : Bytes) :
    boundaryOf (multipartWith boundary) = boundary := by
  have hindex : indexOf bType (literal "multipart/form-data; boundary=") = some 21 := by decide
  have hfind : find (multipartWith boundary) bType 0 = some 21 := by
    rw [find_eq (by decide), List.drop_zero, multipartWith, indexOf_of_piece hindex]
    rfl
  rw [boundaryOf, hfind]
  exact List.drop_left' (by decide)

end Cgicc

end FastCgi
