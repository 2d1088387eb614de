import FastCgi.Buffer

/-! # Form input and cookies

The part of the `cgicc` library that both servers hand a request to: `Cgicc::Cgicc` parses the
body, the query string and the cookies into form elements, uploaded files and cookies. The two
servers carry the same copy of it.

The code works on positions in strings, and throws: `substr` by itself, `parseMIME` on a part
without a header. `Cgicc.new_ok` and `Cgicc.new_error` say on which input that happens. -/

namespace FastCgi

open StdString

/-- `FormEntry`. -/
structure FormEntry where
  name : Bytes
  value : Bytes
  deriving DecidableEq, Repr

/-- `FormFile`. -/
structure FormFile where
  name : Bytes
  filename : Bytes
  dataType : Bytes
  data : Bytes
  deriving DecidableEq, Repr

/-- `HTTPCookie`: the name and the value, all that is set from a request. -/
structure HTTPCookie where
  name : Bytes
  value : Bytes
  deriving DecidableEq, Repr

/-- `MultipartHeader`. -/
structure MultipartHeader where
  contentDisposition : Bytes
  name : Bytes
  filename : Bytes
  contentType : Bytes
  deriving DecidableEq, Repr

/-- `Cgicc`: what was parsed. -/
structure Cgicc where
  formData : List FormEntry
  formFiles : List FormFile
  cookies : List HTTPCookie
  deriving DecidableEq, Repr

namespace Cgicc

/-! ## Utilities -/

/-- `std::toupper`, in the "C" locale. -/
def toupper (c : UInt8) : UInt8 := if 97 ≤ c ∧ c ≤ 122 then c - 32 else c

/-- `std::isspace`, in the "C" locale. -/
def isspace (c : UInt8) : Bool := c == 32 || (9 ≤ c && c ≤ 13)

/-- `std::isxdigit`, in the "C" locale. -/
def isxdigit (c : UInt8) : Bool := (48 ≤ c && c ≤ 57) || (65 ≤ c && c ≤ 70) || (97 ≤ c && c ≤ 102)

/-- The comparison loop of `stringsAreEqual`, up to the end of the shorter range. -/
def agree : Bytes → Bytes → Bool
  | a :: l1, b :: l2 => if toupper a ≠ toupper b then false else agree l1 l2
  | _, _ => true

/-- `stringsAreEqual(s1, s2, n)`: case-insensitive comparison of the first `n` characters. -/
def stringsAreEqual (s1 s2 : Bytes) (n : Nat) : Bool :=
  let good := n ≤ s1.length && n ≤ s2.length
  let l1 := if good then s1.take n else s1
  let l2 := if good then s2.take n else s2
  if agree l1 l2 then good else false

/-- The value of a hexadecimal digit in `hexToChar`. -/
def hexDigit (c : UInt8) : UInt8 := if 65 ≤ c then (c &&& 0xdf) - 65 + 10 else c - 48

/-- `hexToChar`, which is called on hexadecimal digits only. -/
def hexToChar (first second : UInt8) : UInt8 := hexDigit first * 16 + hexDigit second

/-- `form_urldecode`. With a single character behind a `%` the source looks at the terminating zero
of the string, which is no digit. -/
def formUrldecode : Bytes → Bytes
  | [] => []
  | 43 :: src => 32 :: formUrldecode src
  | 37 :: a :: b :: src =>
    if isxdigit a && isxdigit b then hexToChar a b :: formUrldecode src
    else 37 :: formUrldecode (a :: b :: src)
  | c :: src => c :: formUrldecode src

/-- `extractBetween`. -/
def extractBetween (data separator1 separator2 : Bytes) : Except Fault Bytes :=
  match find data separator1 0 with
  | none => return []
  | some start =>
    let start := start + separator1.length
    match find data separator2 start with
    | none => return []
    | some limit => substr data start (subPos (some limit) start)

/-! ## Parsing -/

/-- `"application/x-www-form-urlencoded"`. -/
def standardType : Bytes := literal "application/x-www-form-urlencoded"

/-- `"multipart/form-data"`. -/
def multipartType : Bytes := literal "multipart/form-data"

/-- The end of the header of a part, `"\r\n\r\n"`. -/
def headerEnd : Bytes := literal "\r\n\r\n"

/-- `"boundary="`. -/
def bType : Bytes := literal "boundary="

/-- `parseHeader`. -/
def parseHeader (data : Bytes) : Except Fault MultipartHeader := do
  let disposition ← extractBetween data (literal "Content-Disposition: ") (literal ";")
  let name ← extractBetween data (literal "name=\"") (literal "\"")
  let filename ← extractBetween data (literal "filename=\"") (literal "\"")
  let cType ← extractBetween data (literal "Content-Type: ") (literal "\r\n\r\n")
  return ⟨disposition, name, formUrldecode filename, cType⟩

/-- `parseMIME`: one part of a multipart body. -/
def parseMIME (cgi : Cgicc) (data : Bytes) : Except Fault Cgicc :=
  match find data headerEnd 0 with
  | none => .error (.thrown (.runtimeError "Malformed input"))
  | some headLimit => do
    let valueStart := headLimit + headerEnd.length
    -- there is still a trailing CR/LF to be subtracted off
    let value ← substr data valueStart (subPos (some data.length) (valueStart + 2))
    let head ← parseHeader (← substr data 0 (some valueStart))
    if head.filename.isEmpty then
      return { cgi with formData := cgi.formData ++ [⟨head.name, value⟩] }
    else
      let dataType := if head.contentType.isEmpty then literal "text/plain" else head.contentType
      return { cgi with
        formFiles := cgi.formFiles ++ [⟨head.name, head.filename, dataType, value⟩] }

/-- The loop over the pairs of `application/x-www-form-urlencoded` input. -/
def parseStandardLoop (data : Bytes) : Nat → Nat → Cgicc → Except Fault Cgicc
  | 0, _, _ => .error .endlessLoop
  | fuel + 1, oldPos, cgi =>
    match find data (literal "=") oldPos with
    | none => return cgi
    | some pos => do
      let name ← substr data oldPos (subPos (some pos) oldPos)
      let oldPos := pos + 1
      let pos := find data (literal "&") oldPos
      -- even without an '&' the rest of the string is a value
      let value ← substr data oldPos (subPos pos oldPos)
      let cgi :=
        { cgi with formData := cgi.formData ++ [⟨formUrldecode name, formUrldecode value⟩] }
      match pos with
      | none => return cgi
      | some pos => parseStandardLoop data fuel (pos + 1) cgi

/-- The loop over the parts of `multipart/form-data` input that `sep1` terminates, and the position
behind them. -/
def parseMultipartLoop (data sep1 : Bytes) : Nat → Nat → Cgicc → Except Fault (Nat × Cgicc)
  | 0, _, _ => .error .endlessLoop
  | fuel + 1, oldPos, cgi =>
    match find data sep1 oldPos with
    | none => return (oldPos, cgi)
    | some pos => do
      let cgi ← parseMIME cgi (← substr data oldPos (subPos (some pos) oldPos))
      parseMultipartLoop data sep1 fuel (pos + sep1.length) cgi

/-- The branch of `parseFormInput` for `multipart/form-data`. A content type that names no boundary
is cut at position `npos + 9`. -/
def parseMultipart (cgi : Cgicc) (data contentType : Bytes) : Except Fault Cgicc := do
  let pos := find contentType bType 0
  let boundary ← substr contentType (addPos pos bType.length) none
  let sep1 := literal "--" ++ (boundary ++ literal "\r\n")
  let sep2 := literal "--" ++ (boundary ++ literal "--\r\n")
  let start := find data sep1 0
  let oldPos := addPos start sep1.length
  let (oldPos, cgi) ← parseMultipartLoop data sep1 (data.length + 1) oldPos cgi
  -- the data is terminated by `sep2`
  match find data sep2 oldPos with
  | none => return cgi
  | some pos => parseMIME cgi (← substr data oldPos (subPos (some pos) oldPos))

/-- `parseFormInput`. -/
def parseFormInput (cgi : Cgicc) (data contentType : Bytes) : Except Fault Cgicc :=
  if data.isEmpty then return cgi
  else if contentType.isEmpty || stringsAreEqual contentType standardType standardType.length then
    parseStandardLoop data (data.length + 1) 0 cgi
  else if stringsAreEqual multipartType contentType multipartType.length then
    parseMultipart cgi data contentType
  else return cgi

/-- `parseCookie`: leading whitespace is skipped, and nothing is unescaped. -/
def parseCookie (cgi : Cgicc) (data : Bytes) : Except Fault Cgicc :=
  match find data (literal "=") 0 with
  | none => return cgi
  | some pos => do
    let wscount := (data.takeWhile isspace).length
    let name ← substr data wscount (subPos (some pos) wscount)
    let value ← substr data (pos + 1) none
    return { cgi with cookies := cgi.cookies ++ [⟨name, value⟩] }

/-- The loop of `parseCookies`. -/
def parseCookiesLoop (data : Bytes) : Nat → Nat → Cgicc → Except Fault Cgicc
  | 0, _, _ => .error .endlessLoop
  | fuel + 1, oldPos, cgi =>
    match find data (literal ";") oldPos with
    | none => do
      -- the rest of the string is a single cookie
      let rest ← substr data oldPos none
      parseCookie cgi rest
    | some pos => do
      let cgi ← parseCookie cgi (← substr data oldPos (subPos (some pos) oldPos))
      parseCookiesLoop data fuel (pos + 1) cgi

/-- `parseCookies`. -/
def parseCookies (cgi : Cgicc) (data : Bytes) : Except Fault Cgicc :=
  if data.isEmpty then return cgi else parseCookiesLoop data (data.length + 1) 0 cgi

/-- `Cgicc::Cgicc`: the body is parsed by its content type, then the query string, then the
cookies. -/
def new (query cookie data type : Bytes) : Except Fault Cgicc := do
  let cgi ← parseFormInput ⟨[], [], []⟩ data type
  let cgi ← parseFormInput cgi query standardType
  parseCookies cgi cookie

/-! ## What cannot be thrown -/

theorem extractBetween_ok (data separator1 separator2 : Bytes) :
    ∃ s, extractBetween data separator1 separator2 = .ok s := by
  cases hstart : find data separator1 0 with
  | none => exact ⟨[], by simp only [extractBetween, hstart]; rfl⟩
  | some start =>
      have hle := (le_of_find hstart).2
      cases hlimit : find data separator2 (start + separator1.length) with
      | none => exact ⟨[], by simp only [extractBetween, hstart, hlimit]; rfl⟩
      | some limit =>
          obtain ⟨t, ht⟩ := substr_ok hle (subPos (some limit) (start + separator1.length))
          exact ⟨t, by simp only [extractBetween, hstart, hlimit, ht, liftM_ok]⟩

theorem parseHeader_ok (data : Bytes) : ∃ head, parseHeader data = .ok head := by
  obtain ⟨disposition, h₁⟩ := extractBetween_ok data (literal "Content-Disposition: ") (literal ";")
  obtain ⟨name, h₂⟩ := extractBetween_ok data (literal "name=\"") (literal "\"")
  obtain ⟨filename, h₃⟩ := extractBetween_ok data (literal "filename=\"") (literal "\"")
  obtain ⟨cType, h₄⟩ := extractBetween_ok data (literal "Content-Type: ") (literal "\r\n\r\n")
  rw [parseHeader, h₁, h₂, h₃, h₄]
  exact ⟨_, rfl⟩

/-- The loop over urlencoded pairs ends normally, and adds no cookies. -/
theorem parseStandardLoop_ok {data : Bytes} (fuel : Nat) {oldPos : Nat} (cgi : Cgicc)
    (hpos : oldPos ≤ data.length) (hfuel : data.length < oldPos + fuel) :
    ∃ cgi', parseStandardLoop data fuel oldPos cgi = .ok cgi' ∧ cgi'.cookies = cgi.cookies := by
  induction fuel generalizing oldPos cgi with
  | zero => omega
  | succ fuel ih =>
      cases hname : find data (literal "=") oldPos with
      | none => exact ⟨cgi, by simp only [parseStandardLoop, hname]; rfl, rfl⟩
      | some pos =>
          have hle := (le_of_find hname).1
          have hend : pos + 1 ≤ data.length := (le_of_find hname).2
          obtain ⟨name, h₁⟩ := substr_ok hpos (subPos (some pos) oldPos)
          cases hvalue : find data (literal "&") (pos + 1) with
          | none =>
              obtain ⟨value, h₂⟩ := substr_ok hend (subPos none (pos + 1))
              simp only [parseStandardLoop, hname, hvalue, h₁, h₂, liftM_ok, bind, Except.bind]
              exact ⟨_, rfl, rfl⟩
          | some next =>
              have hle' := (le_of_find hvalue).1
              have hend' : next + 1 ≤ data.length := (le_of_find hvalue).2
              obtain ⟨value, h₂⟩ := substr_ok hend (subPos (some next) (pos + 1))
              simp only [parseStandardLoop, hname, hvalue, h₁, h₂, liftM_ok, bind, Except.bind]
              exact ih _ hend' (by omega)

/-! ## Cookies -/

theorem equals_ne_nil : literal "=" ≠ [] := by decide

theorem semicolon_ne_nil : literal ";" ≠ [] := by decide

/-- The cookie a piece of a cookie string holds: its name stands in front of the first `=`, without
leading whitespace, and the rest is its value. A piece without a `=` holds none. -/
def cookieOf (piece : Bytes) : Option HTTPCookie :=
  (indexOf (literal "=") piece).map fun pos =>
    ⟨(piece.take pos).drop (piece.takeWhile isspace).length, piece.drop (pos + 1)⟩

/-- The pieces of a cookie string, which `;` separates. -/
def cookiePieces (data : Bytes) : List Bytes :=
  let pieces := (terminatedBy _ semicolon_ne_nil).frames data
  pieces.1.map (·.1) ++ [pieces.2]

/-- The **cookies** of a cookie string, in order. -/
def cookiesOf (data : Bytes) : List HTTPCookie := (cookiePieces data).filterMap cookieOf

/-- Leading whitespace ends in front of the first `=`. -/
theorem length_takeWhile_isspace_le {piece : Bytes} {pos : Nat}
    (h : indexOf (literal "=") piece = some pos) : (piece.takeWhile isspace).length ≤ pos := by
  have hsplit := append_of_indexOf h
  have hstop : (literal "=" ++ piece.drop (pos + (literal "=").length)).takeWhile isspace = [] := by
    rw [show literal "=" = [61] from by decide, List.singleton_append, List.takeWhile_cons_of_neg]
    decide
  rw [hsplit, List.takeWhile_append, hstop]
  split
  · rw [List.append_nil]
    exact List.length_take_le _ _
  · exact (List.takeWhile_prefix isspace).length_le.trans (List.length_take_le _ _)

/-- `parseCookie` appends the cookie of a piece. -/
theorem parseCookie_eq (cgi : Cgicc) (piece : Bytes) :
    parseCookie cgi piece
      = .ok { cgi with cookies := cgi.cookies ++ (cookieOf piece).toList } := by
  have hfind : find piece (literal "=") 0 = indexOf (literal "=") piece := by
    rw [find_eq equals_ne_nil, List.drop_zero]
    cases indexOf (literal "=") piece <;> simp
  rw [parseCookie, hfind, cookieOf]
  cases hpos : indexOf (literal "=") piece with
  | none =>
      rw [Option.map_none, Option.toList_none, List.append_nil]
      rfl
  | some pos =>
      have hws := length_takeWhile_isspace_le hpos
      have hend : pos + 1 ≤ piece.length := length_of_indexOf hpos
      have hname : substr piece (piece.takeWhile isspace).length
          (subPos (some pos) (piece.takeWhile isspace).length)
            = .ok ((piece.take pos).drop (piece.takeWhile isspace).length) := by
        rw [subPos_of_le hws, substr_some (by omega), List.drop_take]
      simp only [hname, substr_npos hend, liftM_ok, bind, Except.bind, Option.map_some,
        Option.toList_some]
      rfl

/-- The loop over cookies appends the cookies of the pieces that are left. -/
theorem parseCookiesLoop_eq {data : Bytes} (fuel : Nat) {oldPos : Nat} (cgi : Cgicc)
    (hpos : oldPos ≤ data.length) (hfuel : data.length < oldPos + fuel) :
    parseCookiesLoop data fuel oldPos cgi
      = .ok { cgi with cookies := cgi.cookies ++ cookiesOf (data.drop oldPos) } := by
  induction fuel generalizing oldPos cgi with
  | zero => omega
  | succ fuel ih =>
      cases hfind : find data (literal ";") oldPos with
      | none =>
          have hframes := (terminatedBy _ semicolon_ne_nil).frames_of_cut_none
            (cut_of_find_none semicolon_ne_nil hfind)
          simp only [parseCookiesLoop, hfind, substr_npos hpos, liftM_ok, bind, Except.bind,
            parseCookie_eq, cookiesOf, cookiePieces, hframes]
          rw [List.map_nil, List.nil_append, List.filterMap_cons]
          cases cookieOf (data.drop oldPos) <;> rfl
      | some q =>
          obtain ⟨hle, hend⟩ := le_of_find hfind
          have hend' : q + 1 ≤ data.length := hend
          obtain ⟨p, hp, hcut⟩ := cut_of_find_some semicolon_ne_nil hfind
          have hframes := (terminatedBy _ semicolon_ne_nil).frames_of_cut_some hcut
          have hsub : substr data oldPos (subPos (some q) oldPos) = .ok p.1 := by
            rw [subPos_of_le hle, substr_some hpos, hp]
          -- the first piece gives its cookie, the others are the induction hypothesis
          have hcookies : cookiesOf (data.drop oldPos)
              = (cookieOf p.1).toList ++ cookiesOf (data.drop (q + 1)) := by
            rw [cookiesOf, cookiePieces, hframes]
            simp only [List.map_cons, List.cons_append, List.filterMap_cons]
            cases cookieOf p.1 <;> rfl
          simp only [parseCookiesLoop, hfind, hsub, liftM_ok, bind, Except.bind, parseCookie_eq]
          rw [ih _ hend' (by omega), hcookies, List.append_assoc]

/-- **`parseCookies` appends the cookies of a cookie string.** -/
theorem parseCookies_eq (cgi : Cgicc) (data : Bytes) :
    parseCookies cgi data = .ok { cgi with cookies := cgi.cookies ++ cookiesOf data } := by
  rw [parseCookies]
  split
  · rename_i hempty
    rw [List.isEmpty_iff.mp hempty, show cookiesOf [] = [] from by decide, List.append_nil]
    rfl
  · exact parseCookiesLoop_eq _ cgi (Nat.zero_le _) (by omega)

/-! ## The parts of a multipart body -/

/-- The boundary a content type names. When it names none, the position `npos + 9` is cut at. -/
def boundaryOf (contentType : Bytes) : Bytes :=
  contentType.drop (addPos (find contentType bType 0) bType.length)

/-- The separator in front of a part. -/
def separator (contentType : Bytes) : Bytes :=
  literal "--" ++ (boundaryOf contentType ++ literal "\r\n")

/-- The separator behind the last part. -/
def terminator (contentType : Bytes) : Bytes :=
  literal "--" ++ (boundaryOf contentType ++ literal "--\r\n")

theorem separator_ne_nil (contentType : Bytes) : separator contentType ≠ [] :=
  List.cons_ne_nil _ _

theorem terminator_ne_nil (contentType : Bytes) : terminator contentType ≠ [] :=
  List.cons_ne_nil _ _

/-- What follows the first separator of a body. A body without a separator is cut at position
`npos` plus the length of the separator. -/
def afterSeparator (contentType data : Bytes) : Bytes :=
  data.drop (addPos (find data (separator contentType) 0) (separator contentType).length)

/-- The **parts** of a multipart body: the pieces that separators terminate, and a last one that
the terminator terminates. -/
def parts (contentType data : Bytes) : List Bytes :=
  let pieces := (terminatedBy _ (separator_ne_nil contentType)).frames
    (afterSeparator contentType data)
  pieces.1.map (·.1) ++
    match (terminatedBy _ (terminator_ne_nil contentType)).cut pieces.2 with
    | none => []
    | some (p, _) => [p.1]

/-- Whether a body is parsed as `multipart/form-data`. -/
def isMultipart (contentType : Bytes) : Bool :=
  !(contentType.isEmpty || stringsAreEqual contentType standardType standardType.length) &&
    stringsAreEqual multipartType contentType multipartType.length

/-- A body is **malformed** when it is parsed as `multipart/form-data` and one of its parts has no
header. -/
def Malformed (contentType data : Bytes) : Prop :=
  data ≠ [] ∧ isMultipart contentType = true ∧
    ∃ part ∈ parts contentType data, ¬ headerEnd <:+: part

/-- What `parseMIME` throws. -/
def malformedInput : Fault := .thrown (.runtimeError "Malformed input")

theorem headerEnd_ne_nil : headerEnd ≠ [] := by decide

theorem find_headerEnd_eq_none_iff (part : Bytes) :
    find part headerEnd 0 = none ↔ ¬ headerEnd <:+: part := by
  rw [find_eq headerEnd_ne_nil, Option.map_eq_none_iff, List.drop_zero, indexOf_eq_none_iff]

theorem parseMIME_ok (cgi : Cgicc) {part : Bytes} (h : headerEnd <:+: part) :
    ∃ cgi', parseMIME cgi part = .ok cgi' ∧ cgi'.cookies = cgi.cookies := by
  cases hfind : find part headerEnd 0 with
  | none => exact absurd h ((find_headerEnd_eq_none_iff part).mp hfind)
  | some headLimit =>
      have hend := (le_of_find hfind).2
      obtain ⟨value, h₁⟩ := substr_ok hend
        (subPos (some part.length) (headLimit + headerEnd.length + 2))
      obtain ⟨header, h₂⟩ := substr_ok (Nat.zero_le part.length)
        (some (headLimit + headerEnd.length))
      obtain ⟨head, h₃⟩ := parseHeader_ok header
      simp only [parseMIME, hfind, h₁, h₂, h₃, liftM_ok, bind, Except.bind]
      split
      · exact ⟨_, rfl, rfl⟩
      · exact ⟨_, rfl, rfl⟩

theorem parseMIME_error (cgi : Cgicc) {part : Bytes} (h : ¬ headerEnd <:+: part) :
    parseMIME cgi part = .error malformedInput := by
  simp only [parseMIME, (find_headerEnd_eq_none_iff part).mpr h, malformedInput]

/-- Parts that all have a header are parsed one after the other. -/
theorem foldlM_parseMIME_ok (cgi : Cgicc) {ps : List Bytes} (h : ∀ p ∈ ps, headerEnd <:+: p) :
    ∃ cgi', ps.foldlM parseMIME cgi = .ok cgi' ∧ cgi'.cookies = cgi.cookies := by
  induction ps generalizing cgi with
  | nil => exact ⟨cgi, rfl, rfl⟩
  | cons p ps ih =>
      obtain ⟨cgi₁, h₁, hc₁⟩ := parseMIME_ok cgi (h p List.mem_cons_self)
      rw [List.foldlM_cons, h₁, ← hc₁]
      exact ih cgi₁ (fun p' hp' => h p' (List.mem_cons_of_mem _ hp'))

/-- One part without a header makes the parser throw. -/
theorem foldlM_parseMIME_error (cgi : Cgicc) {ps : List Bytes} (h : ∃ p ∈ ps, ¬ headerEnd <:+: p) :
    ps.foldlM parseMIME cgi = .error malformedInput := by
  induction ps generalizing cgi with
  | nil => simp at h
  | cons p ps ih =>
      rw [List.foldlM_cons]
      by_cases hp : headerEnd <:+: p
      · obtain ⟨cgi₁, h₁, -⟩ := parseMIME_ok cgi hp
        rw [h₁]
        obtain ⟨p', hp', hbad⟩ := h
        obtain rfl | htail := List.mem_cons.mp hp'
        · exact absurd hp hbad
        · exact ih cgi₁ ⟨p', htail, hbad⟩
      · rw [parseMIME_error cgi hp]
        rfl

/-- The loop over the parts of a multipart body parses the pieces that the separator terminates,
and stops in front of what follows them. -/
theorem parseMultipartLoop_eq (data : Bytes) {sep1 : Bytes} (hsep : sep1 ≠ []) (fuel oldPos : Nat)
    (cgi : Cgicc) (hfuel : data.length - oldPos < fuel) :
    ∃ pos, data.drop pos = ((terminatedBy sep1 hsep).frames (data.drop oldPos)).2 ∧
      parseMultipartLoop data sep1 fuel oldPos cgi = (do
        let cgi ← (((terminatedBy sep1 hsep).frames (data.drop oldPos)).1.map (·.1)).foldlM
          parseMIME cgi
        return (pos, cgi)) := by
  induction fuel generalizing oldPos cgi with
  | zero => omega
  | succ fuel ih =>
      cases hfind : find data sep1 oldPos with
      | none =>
          rw [(terminatedBy sep1 hsep).frames_of_cut_none (cut_of_find_none hsep hfind)]
          exact ⟨oldPos, rfl, by simp only [parseMultipartLoop, hfind]; rfl⟩
      | some q =>
          have hlen := List.length_pos_iff.mpr hsep
          obtain ⟨hle, hend⟩ := le_of_find hfind
          obtain ⟨p, hp, hcut⟩ := cut_of_find_some hsep hfind
          rw [(terminatedBy sep1 hsep).frames_of_cut_some hcut]
          have hsub : substr data oldPos (subPos (some q) oldPos) = .ok p.1 := by
            rw [subPos_of_le hle, substr_some (by omega), hp]
          simp only [parseMultipartLoop, hfind, hsub, liftM_ok, List.map_cons, List.foldlM_cons]
          -- the piece is parsed first, the rest of the loop is the induction hypothesis
          cases hmime : parseMIME cgi p.1 with
          | error e =>
              obtain ⟨pos, hpos, -⟩ := ih (q + sep1.length) cgi (by omega)
              exact ⟨pos, hpos, by simp only [hmime, bind, Except.bind]⟩
          | ok cgi₁ =>
              obtain ⟨pos, hpos, hloop⟩ := ih (q + sep1.length) cgi₁ (by omega)
              exact ⟨pos, hpos, by simp only [hmime, bind, Except.bind] at hloop ⊢; exact hloop⟩

theorem length_of_stringsAreEqual {s1 s2 : Bytes} {n : Nat} (h : stringsAreEqual s1 s2 n = true) :
    n ≤ s2.length := by
  simp only [stringsAreEqual] at h
  have hgood : (decide (n ≤ s1.length) && decide (n ≤ s2.length)) = true := by
    by_contra hbad
    rw [Bool.not_eq_true] at hbad
    simp [hbad] at h
  rw [Bool.and_eq_true, decide_eq_true_eq, decide_eq_true_eq] at hgood
  exact hgood.2

/-- A content type that is taken for `multipart/form-data` is as long as that. -/
theorem length_of_isMultipart {contentType : Bytes} (h : isMultipart contentType = true) :
    multipartType.length ≤ contentType.length := by
  rw [isMultipart, Bool.and_eq_true] at h
  exact length_of_stringsAreEqual h.2

/-- The boundary is cut off the content type without an exception, also when it names none. -/
theorem substr_boundaryOf {contentType : Bytes} (h : isMultipart contentType = true) :
    substr contentType (addPos (find contentType bType 0) bType.length) none
      = .ok (boundaryOf contentType) := by
  apply substr_npos
  cases hfind : find contentType bType 0 with
  | none =>
      -- `npos + 9` wraps around to 8, which lies inside every such content type
      have hshort : bType.length - 1 ≤ multipartType.length := by decide
      exact hshort.trans (length_of_isMultipart h)
  | some pos => exact (le_of_find hfind).2

/-- **A multipart body is parsed part by part.** -/
theorem parseMultipart_eq (cgi : Cgicc) (data : Bytes) {contentType : Bytes}
    (h : isMultipart contentType = true) :
    parseMultipart cgi data contentType = (parts contentType data).foldlM parseMIME cgi := by
  obtain ⟨pos, hpos, hloop⟩ := parseMultipartLoop_eq data (separator_ne_nil contentType)
    (data.length + 1)
    (addPos (find data (separator contentType) 0) (separator contentType).length) cgi (by omega)
  have hstart : parseMultipart cgi data contentType = (do
      let (oldPos, cgi) ← parseMultipartLoop data (separator contentType) (data.length + 1)
        (addPos (find data (separator contentType) 0) (separator contentType).length) cgi
      match find data (terminator contentType) oldPos with
      | none => return cgi
      | some pos => parseMIME cgi (← substr data oldPos (subPos (some pos) oldPos))) := by
    rw [parseMultipart, substr_boundaryOf h]
    rfl
  -- first the pieces in front of separators, then the piece in front of the terminator
  rw [hstart, hloop, parts, List.foldlM_append, bind_assoc]
  rw [← afterSeparator] at hpos ⊢
  refine bind_congr fun cgi₁ => ?_
  rw [← hpos]
  cases hfind : find data (terminator contentType) pos with
  | none =>
      rw [cut_of_find_none (terminator_ne_nil contentType) hfind]
      simp [hfind]
  | some q =>
      obtain ⟨hle, hend⟩ := le_of_find hfind
      obtain ⟨p, hp, hcut⟩ := cut_of_find_some (terminator_ne_nil contentType) hfind
      have hsub : substr data pos (subPos (some q) pos) = .ok p.1 := by
        rw [subPos_of_le hle, substr_some (by omega), hp]
      rw [hcut]
      simp only [pure_bind, hfind, hsub, liftM_ok, List.foldlM_cons, List.foldlM_nil, bind_pure]
      rfl

/-! ## When parsing throws -/

theorem parseFormInput_ok (cgi : Cgicc) {data contentType : Bytes}
    (h : ¬ Malformed contentType data) :
    ∃ cgi', parseFormInput cgi data contentType = .ok cgi' ∧ cgi'.cookies = cgi.cookies := by
  rw [parseFormInput]
  split
  · exact ⟨cgi, rfl, rfl⟩
  · rename_i hdata
    split
    · exact parseStandardLoop_ok _ cgi (Nat.zero_le _) (by omega)
    · rename_i hstandard
      split
      · rename_i hmultipart
        have hm : isMultipart contentType = true := by simp [isMultipart, hstandard, hmultipart]
        rw [parseMultipart_eq cgi data hm]
        apply foldlM_parseMIME_ok
        intro p hp
        by_contra hbad
        exact h ⟨by simpa using hdata, hm, p, hp, hbad⟩
      · exact ⟨cgi, rfl, rfl⟩

theorem parseFormInput_error (cgi : Cgicc) {data contentType : Bytes}
    (h : Malformed contentType data) :
    parseFormInput cgi data contentType = .error malformedInput := by
  obtain ⟨hdata, hm, hparts⟩ := h
  have hm' := hm
  rw [isMultipart, Bool.and_eq_true, Bool.not_eq_true'] at hm'
  rw [parseFormInput, if_neg (by simpa using hdata), if_neg (by simp [hm'.1]), if_pos hm'.2,
    parseMultipart_eq cgi data hm]
  exact foldlM_parseMIME_error cgi hparts

/-- Input that is not parsed as `multipart/form-data` is not malformed, whatever it is. -/
theorem not_malformed_of_not_isMultipart {contentType : Bytes}
    (h : isMultipart contentType = false) (data : Bytes) : ¬ Malformed contentType data := by
  rintro ⟨-, hm, -⟩
  rw [h] at hm
  cases hm

theorem not_malformed_standardType (data : Bytes) : ¬ Malformed standardType data :=
  not_malformed_of_not_isMultipart (by decide) data

/-- Input that is not malformed is parsed, the cookie string into its cookies. -/
theorem new_ok (query cookie : Bytes) {data type : Bytes} (h : ¬ Malformed type data) :
    ∃ cgi, new query cookie data type = .ok cgi ∧ cgi.cookies = cookiesOf cookie := by
  obtain ⟨cgi₁, h₁, hc₁⟩ := parseFormInput_ok ⟨[], [], []⟩ h
  obtain ⟨cgi₂, h₂, hc₂⟩ := parseFormInput_ok cgi₁ (not_malformed_standardType query)
  rw [new, h₁]
  simp only [bind, Except.bind, h₂, parseCookies_eq]
  refine ⟨_, rfl, ?_⟩
  rw [hc₂, hc₁, List.nil_append]

/-- Malformed input makes the parser throw. -/
theorem new_error (query cookie : Bytes) {data type : Bytes} (h : Malformed type data) :
    new query cookie data type = .error malformedInput := by
  rw [new, parseFormInput_error _ h]
  rfl

end Cgicc

end FastCgi
