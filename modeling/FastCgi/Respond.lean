import FastCgi.Record

/-! # Encoding a response

`FastCgiCodec::respond` writes the output of the backend as `STDOUT` records of at most 65535
content bytes, padded to a multiple of 8, and closes the response with an empty `STDOUT` record and
an `END_REQUEST` record. The two servers carry copies of it that differ in the byte-order
conversions they call.

`answerRecords` is the list of records a response is to consist of, and `respond_ok` says that
`respond` appends exactly their bytes; `responds_decodingUndoes` says what they decode to. -/

namespace FastCgi

/-- `FCGI_MAX_CONTENT_LENGTH` of `cocgi`, `FCGI_MAX_LENGTH` of `mucgi`. -/
def maxContentLength : Nat := 0xffff

/-- The page that is sent when the backend returned nothing. -/
def emptyResult : Bytes :=
  let content := StdString.literal "Empty Result!"
  StdString.literal "Content-Type: text/html; charset=UTF-8\r\n" ++
    (StdString.literal "Content-Length: " ++ StdString.literal (toString content.length) ++
      StdString.literal "\r\n\r\n") ++ content

namespace Codec

/-- `static_cast<uint8_t>(-length & 7)`, for a `length` of type `size_t`. -/
def padding (length : Nat) : UInt8 := (-length.toUInt64 &&& 7).toUInt8

/-- `static_cast<uint8_t>(-FCGI_MAX_LENGTH & 7)`, computed in `int`. -/
def maxPadding : UInt8 := (-(0xffff : Int32) &&& 7).toUInt32.toUInt8

variable (o : NetworkOrder)

/-- Append one `STDOUT` record, as each branch of `respond` does with its own `length` and
`padding`: the header, the content, and padding from a literal of eight zero bytes. -/
def appendStdout (length : UInt16) (padding : UInt8) (content : Bytes) (response : Buffer) :
    Except Fault Buffer := do
  let header : RecordHeader :=
    ⟨1, FcgiType.stdout.toByte, o.hton16 1, o.hton16 length, padding, 0⟩
  let response ← response.append header.toMemory
  let response ← response.append content
  response.append ((List.replicate 8 0).take header.padding.toNat)

/-- The loop over the full slices of the output, `n` of them from the `i`-th on. -/
def appendSlices (out : Bytes) : Nat → Nat → Buffer → Except Fault Buffer
  | 0, _, response => return response
  | n + 1, i, response => do
    let outSubString ← StdString.substr out (i * maxContentLength) (some maxContentLength)
    let response ← appendStdout o maxContentLength.toUInt16 maxPadding outSubString response
    appendSlices out n (i + 1) response

/-- `endStdout`. -/
def endStdout (buf : Buffer) : Except Fault Buffer :=
  let header : RecordHeader := ⟨1, FcgiType.stdout.toByte, o.hton16 1, 0, 0, 0⟩
  buf.append header.toMemory

/-- `endRequest`. -/
def endRequest (buf : Buffer) : Except Fault Buffer := do
  let header : RecordHeader :=
    ⟨1, FcgiType.endRequest.toByte, o.hton16 1, o.hton16 kRecordHeader.toUInt16, 0, 0⟩
  let buf ← buf.append header.toMemory
  let buf ← buf.appendInt32 o 0
  buf.appendInt32 o 0

/-- The `STDOUT` records of `respond`: one record when everything fits, else the full slices and
what remains behind them. -/
def appendContent (out : Bytes) (response : Buffer) : Except Fault Buffer :=
  if out.length ≤ maxContentLength then
    appendStdout o out.length.toUInt16 (padding out.length) out response
  else do
    let numSubstrings := out.length / maxContentLength
    let response ← appendSlices o out numSubstrings 0 response
    if out.length % maxContentLength ≠ 0 then do
      let outSubString ← StdString.substr out (maxContentLength * numSubstrings) none
      appendStdout o outSubString.length.toUInt16 (padding outSubString.length) outSubString
        response
    else return response

/-- `respond`. The source replaces an empty `out` in place; no caller looks at it afterwards. -/
def respond (out : Bytes) (response : Buffer) : Except Fault Buffer := do
  let out := if out.isEmpty then emptyResult else out
  let response ← appendContent o out response
  let response ← endStdout o response
  endRequest o response

end Codec

/-- `FastCgiCodec::respond` of `cocgi`. -/
def Cocgi.respond (out : Bytes) (response : Buffer) : Except Fault Buffer :=
  Codec.respond Cocgi.order out response

/-- `FastCgiCodec::respond` of `mucgi`. -/
def Mucgi.respond (out : Bytes) (response : Buffer) : Except Fault Buffer :=
  Codec.respond Mucgi.order out response

/-! ## The records of a response -/

/-- What is sent for the output `out`. -/
def payload (out : Bytes) : Bytes := if out = [] then emptyResult else out

/-- The number of padding bytes that fill `n` up to a multiple of 8. -/
def fill (n : Nat) : Nat := (8 - n % 8) % 8

theorem fill_lt (n : Nat) : fill n < 8 := Nat.mod_lt _ (by decide)

/-- A `STDOUT` record of version 1 and id 1, padded with zeros to a multiple of 8. -/
def stdoutRecord (content : Bytes) (h : content.length < 2 ^ 16) : Record where
  version := 1
  type := FcgiType.stdout.toByte
  requestIdB1 := 0
  requestIdB0 := 1
  reserved := 0
  contentData := content
  paddingData := List.replicate (fill content.length) 0
  content_lt := h
  padding_lt := by
    rw [List.length_replicate]
    exact (fill_lt _).trans (by decide)

/-- The `i`-th slice of a string. -/
def slice (p : Bytes) (i : Nat) : Bytes := (p.drop (i * maxContentLength)).take maxContentLength

theorem length_slice_lt (p : Bytes) (i : Nat) : (slice p i).length < 2 ^ 16 :=
  (List.length_take_le _ _).trans_lt (by decide)

/-- The number of slices of a string, the length divided by 65535 and rounded up. -/
def sliceCount (p : Bytes) : Nat := (p.length + (maxContentLength - 1)) / maxContentLength

/-- The record for the `i`-th slice of a string. -/
def sliceRecord (p : Bytes) (i : Nat) : Record := stdoutRecord (slice p i) (length_slice_lt p i)

/-- The `STDOUT` records with the content of a response. -/
def contentRecords (p : Bytes) : List Record := (List.range (sliceCount p)).map (sliceRecord p)

/-- The empty `STDOUT` record. -/
def endStdoutRecord : Record := stdoutRecord [] Record.content_nil_lt

/-- The `END_REQUEST` record, with a body of eight zero bytes. -/
def endRequestRecord : Record where
  version := 1
  type := FcgiType.endRequest.toByte
  requestIdB1 := 0
  requestIdB0 := 1
  reserved := 0
  contentData := List.replicate 8 0
  paddingData := []
  content_lt := by decide
  padding_lt := Record.padding_nil_lt

/-- The records of the response to the output `out`. -/
def answerRecords (out : Bytes) : List Record :=
  contentRecords (payload out) ++ [endStdoutRecord, endRequestRecord]

/-- The bytes of the response to the output `out`. -/
def answer (out : Bytes) : Bytes := (answerRecords out).flatMap Record.encode

theorem payload_ne_nil (out : Bytes) : payload out ≠ [] := by
  rw [payload]
  split
  · intro hnil
    simp [emptyResult, StdString.literal] at hnil
  · assumption

/-- A response is at least as long as the two records that close it. -/
theorem le_length_answer (out : Bytes) : 24 ≤ (answer out).length := by
  have hend : ([endStdoutRecord, endRequestRecord].flatMap Record.encode).length = 24 := by decide
  rw [answer, answerRecords, List.flatMap_append, List.length_append, hend]
  omega

/-! ## What `respond` appends -/

namespace Codec

/-- The padding computed on unsigned numbers fills up to a multiple of 8. -/
theorem toNat_padding (n : Nat) : (padding n).toNat = fill n := by
  rw [padding, UInt64.toNat_toUInt8, UInt64.toNat_and, UInt64.toNat_neg,
    show (7 : UInt64).toNat = 2 ^ 3 - 1 from rfl, Nat.and_two_pow_sub_one_eq_mod, Nat.toUInt64_eq,
    UInt64.toNat_ofNat', show UInt64.size = 2 ^ 64 from rfl, fill]
  omega

theorem toNat_maxPadding : maxPadding.toNat = fill maxContentLength := by decide

variable (o : NetworkOrder)

/-- The memory of a converted length are the two bytes that announce it. -/
theorem store16_length {n : Nat} (h : n < 2 ^ 16) :
    Words.store16 (o.hton16 n.toUInt16) = [(n / 256).toUInt8, n.toUInt8] := by
  have hn : n.toUInt16.toNat = n := by
    rw [Nat.toUInt16_eq, UInt16.toNat_ofNat']
    omega
  have hhi : (n.toUInt16 >>> 8).toUInt8 = (n / 256).toUInt8 := by
    apply UInt8.toNat.inj
    rw [Words.toNat_shiftRight8, hn, Nat.toUInt8_eq, UInt8.toNat_ofNat']
    omega
  have hlo : n.toUInt16.toUInt8 = n.toUInt8 := by
    apply UInt8.toNat.inj
    rw [Words.toNat_toUInt8, hn, Nat.toUInt8_eq, UInt8.toNat_ofNat']
  rw [o.store16_hton16, hhi, hlo]

theorem store16_one : Words.store16 (o.hton16 1) = [0, 1] := by
  rw [o.store16_hton16]
  rfl

theorem store32_zero : Words.store32 (o.hton32 (0 : Int32).toUInt32) = [0, 0, 0, 0] := by
  rw [o.hton32_eq]
  rfl

/-- Appending a `STDOUT` record with the length and the padding of its content. -/
theorem appendStdout_ok {padding : UInt8} {content : Bytes} (h : content.length < 2 ^ 16)
    (hpad : padding.toNat = fill content.length) (response : Buffer) :
    ∃ response', appendStdout o content.length.toUInt16 padding content response = .ok response' ∧
      response'.contents = response.contents ++ (stdoutRecord content h).encode := by
  have hlt := fill_lt content.length
  -- the padding byte of the header, and the zeros that are appended for it
  have hbyte : padding = (fill content.length).toUInt8 := by
    apply UInt8.toNat.inj
    rw [hpad, Record.toNat_toUInt8 (hlt.trans (by decide))]
  have hzeros : (List.replicate 8 (0 : UInt8)).take padding.toNat
      = List.replicate (fill content.length) 0 := by
    rw [hpad, List.take_replicate, min_eq_left hlt.le]
  obtain ⟨b₁, h₁, hc₁⟩ := response.append_ok (RecordHeader.toMemory
    ⟨1, FcgiType.stdout.toByte, o.hton16 1, o.hton16 content.length.toUInt16, padding, 0⟩)
  obtain ⟨b₂, h₂, hc₂⟩ := b₁.append_ok content
  obtain ⟨b₃, h₃, hc₃⟩ := b₂.append_ok ((List.replicate 8 0).take padding.toNat)
  refine ⟨b₃, ?_, ?_⟩
  · rw [appendStdout, h₁]
    simp only [bind, Except.bind, h₂, h₃]
  · rw [hc₃, hc₂, hc₁, hzeros]
    simp only [RecordHeader.toMemory, store16_length o h, store16_one, hbyte, Record.encode,
      stdoutRecord, List.length_replicate, List.append_assoc, List.cons_append, List.nil_append]

/-- The full slices of the output are appended one record each. -/
theorem appendSlices_ok {out : Bytes} {n i : Nat} (h : (i + n) * maxContentLength ≤ out.length)
    (response : Buffer) :
    ∃ response', appendSlices o out n i response = .ok response' ∧
      response'.contents = response.contents ++
        ((List.range' i n).map (sliceRecord out)).flatMap Record.encode := by
  induction n generalizing i response with
  | zero => exact ⟨response, rfl, by simp⟩
  | succ n ih =>
      have hstart : i * maxContentLength ≤ out.length :=
        (Nat.mul_le_mul_right _ (by omega)).trans h
      have hend : (i + 1) * maxContentLength ≤ out.length :=
        (Nat.mul_le_mul_right _ (by omega)).trans h
      have hlen : (slice out i).length = maxContentLength := by
        rw [slice, List.length_take, List.length_drop]
        rw [Nat.add_mul, Nat.one_mul] at hend
        omega
      obtain ⟨b₁, h₁, hc₁⟩ := appendStdout_ok o (length_slice_lt out i)
        (toNat_maxPadding.trans (by rw [hlen])) response
      -- a full slice has the length and the padding the loop writes into every header
      rw [hlen] at h₁
      obtain ⟨b₂, h₂, hc₂⟩ := ih (i := i + 1) (by rw [Nat.add_right_comm]; exact h) b₁
      refine ⟨b₂, ?_, ?_⟩
      · rw [appendSlices, StdString.substr_some hstart]
        exact (congrArg (· >>= appendSlices o out n (i + 1)) h₁).trans h₂
      · rw [hc₂, hc₁, List.range'_succ, List.map_cons, List.flatMap_cons, List.append_assoc]
        rfl

theorem endStdout_ok (buf : Buffer) :
    ∃ buf', endStdout o buf = .ok buf' ∧
      buf'.contents = buf.contents ++ endStdoutRecord.encode := by
  obtain ⟨buf', h, hc⟩ := buf.append_ok (RecordHeader.toMemory
    ⟨1, FcgiType.stdout.toByte, o.hton16 1, 0, 0, 0⟩)
  have hzero : Words.store16 0 = [0, 0] := by decide
  refine ⟨buf', h, ?_⟩
  rw [hc, RecordHeader.toMemory, store16_one, hzero]
  rfl

theorem endRequest_ok (buf : Buffer) :
    ∃ buf', endRequest o buf = .ok buf' ∧
      buf'.contents = buf.contents ++ endRequestRecord.encode := by
  obtain ⟨b₁, h₁, hc₁⟩ := buf.append_ok (RecordHeader.toMemory
    ⟨1, FcgiType.endRequest.toByte, o.hton16 1, o.hton16 kRecordHeader.toUInt16, 0, 0⟩)
  obtain ⟨b₂, h₂, hc₂⟩ := b₁.append_ok (Words.store32 (o.hton32 (0 : Int32).toUInt32))
  obtain ⟨b₃, h₃, hc₃⟩ := b₂.append_ok (Words.store32 (o.hton32 (0 : Int32).toUInt32))
  refine ⟨b₃, ?_, ?_⟩
  · rw [endRequest, h₁]
    simp only [bind, Except.bind, Buffer.appendInt32, h₂, h₃]
  · rw [hc₃, hc₂, hc₁, store32_zero, RecordHeader.toMemory, store16_one,
      store16_length o (by decide : kRecordHeader < 2 ^ 16)]
    simp only [List.append_assoc]
    rfl

/-- The content of a response is appended slice by slice, whichever branch does it. -/
theorem appendContent_ok {out : Bytes} (hne : out ≠ []) (response : Buffer) :
    ∃ response', appendContent o out response = .ok response' ∧
      response'.contents = response.contents ++ (contentRecords out).flatMap Record.encode := by
  have hpos := List.length_pos_iff.mpr hne
  rw [appendContent]
  by_cases hone : out.length ≤ maxContentLength
  · -- one record holds everything
    have hcount : sliceCount out = 1 := by
      rw [sliceCount, maxContentLength] at *
      omega
    have hslice : slice out 0 = out := by
      rw [slice, Nat.zero_mul, List.drop_zero, List.take_of_length_le hone]
    have hlen : (slice out 0).length = out.length := by rw [hslice]
    obtain ⟨b, hb, hc⟩ := appendStdout_ok o (length_slice_lt out 0)
      (toNat_padding (slice out 0).length) response
    rw [hslice] at hb
    refine ⟨b, by rw [if_pos hone, hb], ?_⟩
    rw [hc, contentRecords, hcount]
    simp [sliceRecord]
  · rw [if_neg hone]
    obtain ⟨b₁, h₁, hc₁⟩ := appendSlices_ok o (n := out.length / maxContentLength) (i := 0)
      (by rw [Nat.zero_add]; exact Nat.div_mul_le_self _ _) response
    simp only [h₁, bind, Except.bind]
    rw [← List.range_eq_range'] at hc₁
    by_cases hrest : out.length % maxContentLength ≠ 0
    · -- the remainder makes one more slice
      have hcount : sliceCount out = out.length / maxContentLength + 1 := by
        rw [sliceCount, maxContentLength] at *
        omega
      have hle : maxContentLength * (out.length / maxContentLength) ≤ out.length :=
        Nat.mul_div_le _ _
      have hslice : slice out (out.length / maxContentLength)
          = out.drop (maxContentLength * (out.length / maxContentLength)) := by
        rw [slice, Nat.mul_comm, List.take_of_length_le]
        rw [List.length_drop, maxContentLength]
        omega
      obtain ⟨b₂, h₂, hc₂⟩ := appendStdout_ok o
        (length_slice_lt out (out.length / maxContentLength)) (toNat_padding _) b₁
      rw [hslice] at h₂
      refine ⟨b₂, ?_, ?_⟩
      · rw [if_pos hrest, StdString.substr_npos hle]
        exact h₂
      · rw [hc₂, hc₁, contentRecords, hcount, List.range_succ, List.map_append,
          List.flatMap_append, List.append_assoc]
        simp [sliceRecord]
    -- the slices are all there is
    · have hcount : sliceCount out = out.length / maxContentLength := by
        rw [sliceCount, maxContentLength] at *
        omega
      refine ⟨b₁, by rw [if_neg hrest]; rfl, ?_⟩
      rw [hc₁, contentRecords, hcount]

/-- **`respond` appends the bytes of the response**, behind whatever the buffer holds. -/
theorem respond_ok (out : Bytes) (response : Buffer) :
    ∃ response', respond o out response = .ok response' ∧
      response'.contents = response.contents ++ answer out := by
  have hout : (if out.isEmpty then emptyResult else out) = payload out := by
    simp only [payload, List.isEmpty_iff]
  obtain ⟨b₁, h₁, hc₁⟩ := appendContent_ok o (payload_ne_nil out) response
  obtain ⟨b₂, h₂, hc₂⟩ := endStdout_ok o b₁
  obtain ⟨b₃, h₃, hc₃⟩ := endRequest_ok o b₂
  refine ⟨b₃, ?_, ?_⟩
  · rw [respond]
    simp only [hout]
    rw [h₁]
    simp only [bind, Except.bind, h₂, h₃]
  · rw [hc₃, hc₂, hc₁, answer, answerRecords, List.flatMap_append]
    simp

end Codec

/-! ## Decoding a response -/

/-- A `STDOUT` record of a response that carries content. -/
structure Record.IsContent (r : Record) : Prop where
  version_eq : r.version = 1
  type_eq : r.type = FcgiType.stdout.toByte
  id_eq : Record.announced r.requestIdB1 r.requestIdB0 = 1
  content_pos : 1 ≤ r.contentData.length
  content_le : r.contentData.length ≤ 65535
  padding_lt : r.paddingData.length < 8
  padding_zero : ∀ b ∈ r.paddingData, b = 0
  dvd_total : 8 ∣ r.total

theorem stdoutRecord_isContent {content : Bytes} (h : content.length < 2 ^ 16)
    (hpos : 0 < content.length) : (stdoutRecord content h).IsContent where
  version_eq := rfl
  type_eq := rfl
  id_eq := rfl
  content_pos := hpos
  content_le := Nat.le_of_lt_succ h
  padding_lt := by
    rw [stdoutRecord, List.length_replicate]
    exact fill_lt _
  padding_zero b hb := List.eq_of_mem_replicate hb
  dvd_total := by
    simp only [Record.total, stdoutRecord, List.length_replicate, kRecordHeader, fill]
    omega

/-- The first slices of a string are its front. -/
theorem flatMap_slice (p : Bytes) (n : Nat) :
    (List.range n).flatMap (slice p) = p.take (n * maxContentLength) := by
  induction n with
  | zero => simp
  | succ n ih =>
      rw [List.range_succ, List.flatMap_append, ih, Nat.succ_mul, List.take_add]
      simp [slice]

/-- The slices of a string are all of it. -/
theorem flatMap_slice_sliceCount (p : Bytes) :
    (List.range (sliceCount p)).flatMap (slice p) = p := by
  rw [flatMap_slice, List.take_of_length_le]
  rw [sliceCount, maxContentLength]
  omega

/-- No slice of a string is empty. -/
theorem length_slice_pos {p : Bytes} {i : Nat} (h : i < sliceCount p) :
    0 < (slice p i).length := by
  rw [sliceCount, maxContentLength] at h
  rw [slice, List.length_take, List.length_drop, maxContentLength]
  omega

theorem contentRecords_isContent {p : Bytes} {r : Record} (h : r ∈ contentRecords p) :
    r.IsContent := by
  obtain ⟨i, hi, rfl⟩ := List.mem_map.mp h
  exact stdoutRecord_isContent _ (length_slice_pos (List.mem_range.mp hi))

theorem flatMap_contentRecords (p : Bytes) :
    (contentRecords p).flatMap Record.contentData = p := by
  rw [contentRecords, List.flatMap_map]
  exact flatMap_slice_sliceCount p

/-- **Decoding undoes** an encoder of responses: it leaves the prior content of the buffer as it is
and appends bytes that split completely into the content of the response in `STDOUT` records, one
empty `STDOUT` record and one `END_REQUEST` record. -/
def DecodingUndoes (respond : Bytes → Buffer → Except Fault Buffer) : Prop :=
  ∀ (out : Bytes) (response : Buffer), ∃ response' appended contents,
    respond out response = .ok response' ∧
      response'.contents = response.contents ++ appended ∧
      recordFormat.frames appended = (contents ++ [endStdoutRecord, endRequestRecord], []) ∧
      contents.length = sliceCount (payload out) ∧ (∀ r ∈ contents, r.IsContent) ∧
      contents.flatMap Record.contentData = payload out

theorem Codec.respond_decodingUndoes (o : NetworkOrder) : DecodingUndoes (Codec.respond o) := by
  intro out response
  obtain ⟨response', hresp, hc⟩ := Codec.respond_ok o out response
  refine ⟨response', answer out, contentRecords (payload out), hresp, hc, ?_, ?_, ?_, ?_⟩
  · exact recordFormat.frames_flatMap_encode (answerRecords out)
  · rw [contentRecords, List.length_map, List.length_range]
  · intro r hr
    exact contentRecords_isContent hr
  · exact flatMap_contentRecords _

/-- **Decoding undoes `respond`**, in both servers, for every output and every prior content. -/
theorem responds_decodingUndoes : DecodingUndoes Cocgi.respond ∧ DecodingUndoes Mucgi.respond :=
  ⟨Codec.respond_decodingUndoes Cocgi.order, Codec.respond_decodingUndoes Mucgi.order⟩

end FastCgi
