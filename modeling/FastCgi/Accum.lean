import FastCgi.Codec

/-! # What the parse loop computes

The codec seen from outside is its pending input and its **accumulators**: the two flags, the
strings held by `stdin` and `paramsStream`, and the parameter map. This file states what each
handler does to the accumulators (`Accum`), and proves that the codec does exactly that:

* `Codec.parseAllParams_refines`: parsing the params stream stores its complete pairs and succeeds
  iff nothing else is in it;
* `Codec.parse_refines`: the parse loop raises no fault, folds `Accum.handle` over the complete
  records of the input, and leaves the unfinished rest. -/

namespace FastCgi

/-- The **accumulators** of a codec. -/
@[ext]
structure Accum where
  gotRequest : Bool
  keepConn : Bool
  stdin : Bytes
  paramsStream : Bytes
  params : ParamMap
  deriving DecidableEq

/-- The accumulators of a codec, its buffers read as strings. -/
def Codec.accum (c : Codec) : Accum :=
  ⟨c.gotRequest, c.keepConn, c.stdin.contents, c.paramsStream.contents, c.params⟩

/-- The pending input of a codec. -/
def Codec.input (c : Codec) : Bytes := c.buf.contents

/-! ## The handlers on accumulators -/

/-- What a failed attempt to read a pair off `b` leaves of it: the lengths that could be read are
consumed, the announced bytes are not. -/
def residue (b : Bytes) : Bytes :=
  match FieldLength.cut b with
  | none => b
  | some (_, b) =>
    match FieldLength.cut b with
    | none => b
    | some (_, b) => b

@[simp] theorem residue_nil : residue [] = [] := rfl

namespace Accum

/-- The accumulators of a new codec. -/
def new : Accum := ⟨false, false, [], [], ∅⟩

/-- Parse the params stream: every complete pair is stored, and the attempt succeeds iff the stream
consists of complete pairs. -/
def parseAllParams (s : Accum) : Bool × Accum :=
  ((pairFormat.frames s.paramsStream).2.isEmpty,
    { s with
      paramsStream := residue (pairFormat.frames s.paramsStream).2
      params := storePairs s.params (pairFormat.frames s.paramsStream).1 })

/-- A non-empty `PARAMS` content extends the stream, an empty one closes it. -/
def onParams (s : Accum) (content : Bytes) : Bool × Accum :=
  if content = [] then s.parseAllParams
  else (true, { s with paramsStream := s.paramsStream ++ content })

/-- A non-empty `STDIN` content extends the body, an empty one completes the request. -/
def onStdin (s : Accum) (content : Bytes) : Accum :=
  if content = [] then { s with gotRequest := true }
  else { s with stdin := s.stdin ++ content }

/-- Whether a `BEGIN_REQUEST` content is accepted: long enough for the body of the record, and for
the role of a responder. -/
def beginAccepted : Bytes → Bool
  | role1 :: role0 :: flags :: rest =>
    kRecordHeader ≤ (role1 :: role0 :: flags :: rest).length && Record.announced role1 role0 == 1
  | _ => false

/-- The flags of a `BEGIN_REQUEST` content. -/
def beginFlags (content : Bytes) : UInt8 := content.getD 2 0

/-- An accepted `BEGIN_REQUEST` content decides whether the connection is kept. -/
def onBeginRequest (s : Accum) (content : Bytes) : Bool × Accum :=
  if beginAccepted content then
    (true, { s with keepConn := beginFlags content == Codec.kFcgiKeepConn })
  else (false, s)

/-- What one record does to the accumulators. -/
def handle (s : Accum) (r : Record) : Accum :=
  match FcgiType.ofByte r.type with
  | some .beginRequest => (s.onBeginRequest r.contentData).2
  | some .params => (s.onParams r.contentData).2
  | some .stdin => s.onStdin r.contentData
  | _ => s

end Accum

/-! ## Reading the body of a `BEGIN_REQUEST` -/

/-- A content that is long enough begins with role and flags, and the role decides. -/
theorem Accum.beginAccepted_of_length_le {content : Bytes} (h : kRecordHeader ≤ content.length) :
    ∃ role1 role0 flags tail, content = role1 :: role0 :: flags :: tail ∧
      beginAccepted content = decide (Record.announced role1 role0 = 1) := by
  rcases content with _ | ⟨role1, _ | ⟨role0, _ | ⟨flags, tail⟩⟩⟩
  · simp [kRecordHeader] at h
  · simp [kRecordHeader] at h
  · simp [kRecordHeader] at h
  · refine ⟨role1, role0, flags, tail, rfl, ?_⟩
    simp only [beginAccepted, h, decide_true, Bool.true_and]
    rfl

theorem Accum.beginAccepted_of_lt {content : Bytes} (h : content.length < kRecordHeader) :
    beginAccepted content = false := by
  rcases content with _ | ⟨role1, _ | ⟨role0, _ | ⟨flags, tail⟩⟩⟩
  · rfl
  · rfl
  · rfl
  · simp only [beginAccepted, Nat.not_le_of_lt h, decide_false, Bool.false_and]

/-! ## Reading lengths -/

theorem and_top_bit_ne_zero (b : UInt8) : b &&& 0x80 ≠ 0 ↔ ¬ b.toNat < 2 ^ 7 := by
  have h : ∀ i : Fin 256, UInt8.ofFin i &&& 0x80 ≠ 0 ↔ ¬ i.val < 2 ^ 7 := by decide +kernel
  exact h b.toFin

/-- Sign extension of a byte without its top bit keeps the value. -/
theorem toUInt32_signExtend {b : UInt8} (h : b.toNat < 2 ^ 7) :
    b.toInt8.toInt32.toUInt32 = b.toNat.toUInt32 := by
  have key : ∀ i : Fin 256, i.val < 2 ^ 7 →
      (UInt8.ofFin i).toInt8.toInt32.toUInt32 = i.val.toUInt32 := by decide +kernel
  exact key b.toFin h

/-- Masking off the top bit of a loaded word gives the four-byte value. -/
theorem toUInt32_mask {b3 : UInt8} (b2 b1 b0 : UInt8) (h : ¬ b3.toNat < 2 ^ 7) :
    ((Words.load32 b0 b1 b2 b3).toInt32 &&& 0x7fffffff).toUInt32
      = (FieldLength.fourByteValue b3 b2 b1 b0).toUInt32 := by
  have h3 := b3.toNat_lt
  have h2 := b2.toNat_lt
  have h1 := b1.toNat_lt
  have h0 := b0.toNat_lt
  have hmask : ((Words.load32 b0 b1 b2 b3).toInt32 &&& 0x7fffffff).toUInt32
      = Words.load32 b0 b1 b2 b3 &&& 0x7fffffff := rfl
  apply UInt32.toNat.inj
  rw [hmask, UInt32.toNat_and, show (0x7fffffff : UInt32).toNat = 2 ^ 31 - 1 from rfl,
    Nat.and_two_pow_sub_one_eq_mod, Words.toNat_load32, FieldLength.fourByteValue, Nat.toUInt32_eq,
    UInt32.toNat_ofNat']
  omega

namespace Codec

variable (o : NetworkOrder)

/-- The top bit of the first byte tells `readLen` which form to read. -/
theorem readLen_of_cons {stream : Buffer} {b3 : UInt8} {tail : Bytes}
    (hc : stream.contents = b3 :: tail) :
    readLen o stream =
      if b3 &&& 0x80 ≠ 0 then
        if 4 ≤ stream.readableBytes then do
          let (x, stream) ← stream.readInt32 o
          return ((x &&& 0x7fffffff).toUInt32, stream)
        else return (noLength, stream)
      else do
        let (x, stream) ← stream.readInt8
        return (x.toInt32.toUInt32, stream) := by
  have hlen : 1 ≤ stream.readableBytes := by rw [← stream.length_contents, hc]; simp
  have hbyte : b3.toInt8.toUInt8 = b3 := rfl
  rw [readLen, if_pos hlen, Buffer.peekInt8_ok hc]
  simp only [bind, Except.bind, hbyte]

/-- `readLen` reads a length that is there. -/
theorem readLen_ok {stream : Buffer} {l : FieldLength} {rest : Bytes}
    (h : FieldLength.cut stream.contents = some (l, rest)) :
    ∃ stream', readLen o stream = .ok (l.value.toUInt32, stream') ∧ stream'.contents = rest := by
  cases hc : stream.contents with
  | nil => rw [hc] at h; cases h
  | cons b3 tail =>
      rw [hc, FieldLength.cut] at h
      rw [readLen_of_cons o hc]
      split at h
      · rename_i hlow
        simp only [Option.some.injEq, Prod.mk.injEq] at h
        obtain ⟨rfl, rfl⟩ := h
        obtain ⟨stream', hread, hrest⟩ := Buffer.readInt8_ok hc
        rw [if_neg (by rw [and_top_bit_ne_zero]; exact not_not_intro hlow), hread]
        refine ⟨stream', ?_, hrest⟩
        simp only [bind, Except.bind, pure, Except.pure, toUInt32_signExtend hlow]
      · rename_i htop
        rcases tail with _ | ⟨b2, _ | ⟨b1, _ | ⟨b0, tail⟩⟩⟩
        · cases h
        · cases h
        · cases h
        · have hlen4 : 4 ≤ stream.readableBytes := by rw [← stream.length_contents, hc]; simp
          simp only [FieldLength.cutFourByte, Option.some.injEq, Prod.mk.injEq] at h
          obtain ⟨rfl, rfl⟩ := h
          obtain ⟨stream', hread, hrest⟩ := Buffer.readInt32_ok o hc
          rw [if_pos ((and_top_bit_ne_zero b3).mpr htop), if_pos hlen4, hread]
          refine ⟨stream', ?_, hrest⟩
          simp only [bind, Except.bind, pure, Except.pure, toUInt32_mask b2 b1 b0 htop]

/-- `readLen` reports a length that is not there, and consumes nothing. -/
theorem readLen_none {stream : Buffer} (h : FieldLength.cut stream.contents = none) :
    readLen o stream = .ok (noLength, stream) := by
  cases hc : stream.contents with
  | nil =>
      have hlen : ¬ 1 ≤ stream.readableBytes := by rw [← stream.length_contents, hc]; simp
      rw [readLen, if_neg hlen]
      rfl
  | cons b3 tail =>
      rw [hc, FieldLength.cut] at h
      rw [readLen_of_cons o hc]
      split at h
      · cases h
      · rename_i htop
        rw [if_pos ((and_top_bit_ne_zero b3).mpr htop)]
        have hlen4 : ¬ 4 ≤ stream.readableBytes := by
          rw [← stream.length_contents, hc]
          rcases tail with _ | ⟨b2, _ | ⟨b1, _ | ⟨b0, tail⟩⟩⟩
          · simp
          · simp
          · simp
          · cases h
        rw [if_neg hlen4]
        rfl

/-- A decoded length survives the conversion to `uint32_t`. -/
theorem toNat_fieldLength (l : FieldLength) : l.value.toUInt32.toNat = l.value := by
  have h := l.fits.lt
  rw [Nat.toUInt32_eq, UInt32.toNat_ofNat']
  omega

/-- A decoded length is never taken for the error value. -/
theorem fieldLength_ne_noLength (l : FieldLength) : l.value.toUInt32 ≠ noLength := by
  intro heq
  have h := l.fits.lt
  have hnat := congrArg UInt32.toNat heq
  rw [toNat_fieldLength, noLength, show (0xffffffff : UInt32).toNat = 4294967295 from rfl] at hnat
  omega

/-- The sum of two decoded lengths does not wrap in `uint32_t`. -/
theorem toNat_add_fieldLength (n v : FieldLength) :
    (n.value.toUInt32 + v.value.toUInt32).toNat = n.value + v.value := by
  have hn := n.fits.lt
  have hv := v.fits.lt
  rw [UInt32.toNat_add, toNat_fieldLength, toNat_fieldLength]
  omega

/-! ## Parsing the params stream -/

/-- One round of the loop of `parseAllParams` takes off a pair that is there and stores it. -/
theorem parseAllParamsLoop_of_cut_some (fuel : Nat) {stream : Buffer} (params : ParamMap)
    {p : Pair} {rest : Bytes} (h : Pair.cut stream.contents = some (p, rest)) :
    ∃ stream', parseAllParamsLoop o (fuel + 1) stream params
        = parseAllParamsLoop o fuel stream' (params.insert p.name p.value) ∧
      stream'.contents = rest := by
  have hpos : 0 < stream.readableBytes := by
    have hlt := pairFormat.length_lt_of_cut h
    rw [stream.length_contents] at hlt
    omega
  rw [Pair.cut] at h
  split at h
  · cases h
  · rename_i n rest₁ hn
    split at h
    · cases h
    · rename_i v rest₂ hv
      split at h
      case isFalse => cases h
      case isTrue hle =>
        simp only [Option.some.injEq, Prod.mk.injEq] at h
        obtain ⟨rfl, rfl⟩ := h
        obtain ⟨stream₁, hread₁, hc₁⟩ := readLen_ok o hn
        obtain ⟨stream₂, hread₂, hc₂⟩ := readLen_ok o (hc₁ ▸ hv)
        have hname : n.value ≤ stream₂.contents.length := by rw [hc₂]; omega
        obtain ⟨stream₃, hread₃, hc₃⟩ := Buffer.retrieveAsString_ok hname
        have hvalue : v.value ≤ stream₃.contents.length := by
          rw [hc₃, hc₂, List.length_drop]
          omega
        obtain ⟨stream₄, hread₄, hc₄⟩ := Buffer.retrieveAsString_ok hvalue
        refine ⟨stream₄, ?_, by rw [hc₄, hc₃, hc₂, List.drop_drop]⟩
        rw [parseAllParamsLoop, if_pos hpos, hread₁]
        simp only [bind, Except.bind, if_neg (fieldLength_ne_noLength n), hread₂,
          if_neg (fieldLength_ne_noLength v), toNat_add_fieldLength, toNat_fieldLength]
        rw [← stream₂.length_contents, hc₂, if_pos hle, hread₃]
        simp only [hread₄, hc₂, hc₃]
        rfl

/-- When no pair can be taken off a non-empty stream, the loop of `parseAllParams` fails. -/
theorem parseAllParamsLoop_of_cut_none (fuel : Nat) {stream : Buffer} (params : ParamMap)
    (hne : stream.contents ≠ []) (h : Pair.cut stream.contents = none) :
    ∃ stream', parseAllParamsLoop o (fuel + 1) stream params = .ok (false, stream', params) ∧
      stream'.contents = residue stream.contents := by
  have hpos : 0 < stream.readableBytes := by
    rw [← stream.length_contents]
    exact List.length_pos_iff.mpr hne
  rw [parseAllParamsLoop, if_pos hpos]
  -- the three exits: no name length, no value length, not enough bytes for both
  cases hn : FieldLength.cut stream.contents with
  | none =>
      rw [readLen_none o hn]
      exact ⟨stream, rfl, by simp only [residue, hn]⟩
  | some p =>
      obtain ⟨n, rest₁⟩ := p
      obtain ⟨stream₁, hread₁, hc₁⟩ := readLen_ok o hn
      rw [hread₁]
      simp only [bind, Except.bind, if_neg (fieldLength_ne_noLength n)]
      cases hv : FieldLength.cut rest₁ with
      | none =>
          rw [readLen_none o (by rw [hc₁]; exact hv)]
          exact ⟨stream₁, rfl, by simp only [residue, hn, hv, hc₁]⟩
      | some q =>
          obtain ⟨v, rest₂⟩ := q
          obtain ⟨stream₂, hread₂, hc₂⟩ := readLen_ok o (hc₁ ▸ hv)
          rw [hread₂]
          have hle : ¬ n.value + v.value ≤ rest₂.length := by
            intro hle
            simp only [Pair.cut, hn, hv, dif_pos hle] at h
            cases h
          simp only [if_neg (fieldLength_ne_noLength v), toNat_add_fieldLength,
            ← stream₂.length_contents, hc₂, if_neg hle]
          exact ⟨stream₂, rfl, by simp only [residue, hn, hv, hc₂]⟩

/-- The loop of `parseAllParams` stores the complete pairs of the stream, in order, and reports
whether they were all there was. -/
theorem parseAllParamsLoop_ok (fuel : Nat) (stream : Buffer) (params : ParamMap)
    (hfuel : stream.contents.length < fuel) :
    ∃ stream', parseAllParamsLoop o fuel stream params
        = .ok ((pairFormat.frames stream.contents).2.isEmpty, stream',
            storePairs params (pairFormat.frames stream.contents).1) ∧
      stream'.contents = residue (pairFormat.frames stream.contents).2 := by
  -- one round for each pair; the stream gets shorter, so the fuel is never used up
  induction fuel generalizing stream params with
  | zero => omega
  | succ fuel ih =>
      cases hcut : pairFormat.cut stream.contents with
      | some q =>
          obtain ⟨p, rest⟩ := q
          have hshort := pairFormat.length_lt_of_cut hcut
          obtain ⟨stream₁, hround, hc₁⟩ := parseAllParamsLoop_of_cut_some o fuel params hcut
          obtain ⟨stream', hloop, hres⟩ :=
            ih stream₁ (params.insert p.name p.value) (by rw [hc₁]; omega)
          rw [hc₁] at hloop hres
          rw [hround, hloop, pairFormat.frames_of_cut_some hcut]
          exact ⟨stream', rfl, hres⟩
      | none =>
          rw [pairFormat.frames_of_cut_none hcut]
          by_cases hnil : stream.contents = []
          · have hpos : ¬ 0 < stream.readableBytes := by rw [← stream.length_contents, hnil]; simp
            refine ⟨stream, ?_, by rw [hnil]; rfl⟩
            rw [parseAllParamsLoop, if_neg hpos, hnil]
            rfl
          · obtain ⟨stream', hround, hres⟩ :=
              parseAllParamsLoop_of_cut_none o fuel params hnil hcut
            rw [hround, List.isEmpty_eq_false_iff.mpr hnil]
            exact ⟨stream', rfl, hres⟩

/-! ## The handlers refine their specification

Each handler returns what its specification on accumulators returns, leaves the accumulators the
specification leaves, and does not touch the input buffer. -/

/-- `c'` is the codec `c` after a handler that left the accumulators `s`. -/
def Leaves (c c' : Codec) (s : Accum) : Prop := c'.accum = s ∧ c'.buf = c.buf

theorem parseAllParams_refines (c : Codec) :
    ∃ c', c.parseAllParams o = .ok (c.accum.parseAllParams.1, c') ∧
      c.Leaves c' c.accum.parseAllParams.2 := by
  obtain ⟨stream', hloop, hres⟩ := parseAllParamsLoop_ok o (c.paramsStream.readableBytes + 1)
    c.paramsStream c.params (by rw [c.paramsStream.length_contents]; omega)
  rw [parseAllParams, hloop]
  refine ⟨_, rfl, ?_, rfl⟩
  simp only [accum, Accum.parseAllParams, hres]

theorem onParams_refines (c : Codec) (content : Bytes) :
    ∃ c', c.onParams o content = .ok ((c.accum.onParams content).1, c') ∧
      c.Leaves c' (c.accum.onParams content).2 := by
  rw [onParams, Accum.onParams]
  by_cases h : content = []
  · rw [if_neg (by simp [h]), if_pos h]
    exact c.parseAllParams_refines o
  · rw [if_pos (List.length_pos_iff.mpr h), if_neg h]
    obtain ⟨stream', happ, hc⟩ := c.paramsStream.append_ok content
    rw [happ]
    refine ⟨_, rfl, ?_, rfl⟩
    simp only [accum, hc]

theorem onStdin_refines (c : Codec) (content : Bytes) :
    ∃ c', c.onStdin content = .ok c' ∧ c.Leaves c' (c.accum.onStdin content) := by
  rw [onStdin, Accum.onStdin]
  by_cases h : content = []
  · rw [if_neg (by simp [h]), if_pos h]
    exact ⟨_, rfl, rfl, rfl⟩
  · rw [if_pos (List.length_pos_iff.mpr h), if_neg h]
    obtain ⟨stdin', happ, hc⟩ := c.stdin.append_ok content
    rw [happ]
    refine ⟨_, rfl, ?_, rfl⟩
    simp only [accum, hc]

/-- A header as the parse loop reads it announces the record `r`. -/
structure Announces (header : RecordHeader) (r : Record) : Prop where
  type_eq : header.type = r.type
  length_eq : header.length.toNat = r.contentData.length
  padding_eq : header.padding.toNat = r.paddingData.length

/-- The header copied from the front of a record announces that record. -/
theorem announces_encode (r : Record) (rest : Bytes) :
    Announces (toHost o (.ofMemory ((r.encode ++ rest).take kRecordHeader))) r := by
  have hc := r.content_lt
  refine ⟨rfl, ?_, Record.toNat_toUInt8 r.padding_lt⟩
  exact (o.toNat_ntoh16_load16 _ _).trans (Record.announced_toUInt8 hc)

/-- The content of the first record is what lies behind the header. -/
theorem content_encode (r : Record) (rest : Bytes) :
    ((r.encode ++ rest).drop kRecordHeader).take r.contentData.length = r.contentData := by
  rw [show (r.encode ++ rest).drop kRecordHeader = r.contentData ++ (r.paddingData ++ rest) by
    simp [Record.encode, kRecordHeader]]
  simp

theorem onBeginRequest_refines (c : Codec) {r : Record} {rest : Bytes} {header : RecordHeader}
    (hin : c.input = r.encode ++ rest) (hh : Announces header r)
    (ht : r.type = FcgiType.beginRequest.toByte) :
    ∃ c', c.onBeginRequest o header = .ok ((c.accum.onBeginRequest r.contentData).1, c') ∧
      c.Leaves c' (c.accum.onBeginRequest r.contentData).2 := by
  have hbuf : c.buf.contents = r.encode ++ rest := hin
  have hlen : r.total + rest.length = c.buf.readableBytes := by
    rw [← c.buf.length_contents, hbuf, List.length_append, Record.length_encode]
  rw [Record.total] at hlen
  rw [onBeginRequest, if_neg (by rw [hh.length_eq]; omega),
    if_neg (by rw [hh.type_eq, ht]; simp), hh.length_eq, Accum.onBeginRequest]
  by_cases h8 : kRecordHeader ≤ r.contentData.length
  · -- the body of the record is there: role and flags are its first three bytes
    obtain ⟨role1, role0, flags, tail, hcontent, hacc⟩ := Accum.beginAccepted_of_length_le h8
    have hdrop : (r.encode ++ rest).drop kRecordHeader
        = role1 :: role0 :: flags :: (tail ++ (r.paddingData ++ rest)) := by
      simp [Record.encode, kRecordHeader, hcontent]
    have hlong : kRecordHeader + 8 ≤ c.buf.contents.length := by
      rw [c.buf.length_contents, ← hlen]
      rw [kRecordHeader] at h8 ⊢
      omega
    have hrole : c.buf.peekBytes kRecordHeader 2 = .ok [role1, role0] := by
      rw [Buffer.peekBytes_ok (by omega), hbuf, hdrop]
      rfl
    have hflags : c.buf.peekBytes (kRecordHeader + 2) 1 = .ok [flags] := by
      rw [Buffer.peekBytes_ok (by omega), hbuf, ← List.drop_drop, hdrop]
      rfl
    have hresp : o.ntoh16 (Words.load16 role1 role0) = kFcgiResponder ↔
        Record.announced role1 role0 = 1 := by
      rw [← UInt16.toNat_inj, o.toNat_ntoh16_load16]
      rfl
    -- both sides now decide by the role
    rw [if_pos h8, readInt16, byteAt, hrole, hflags, hacc]
    simp only [bind, Except.bind, pure, Except.pure, hresp, decide_eq_true_eq]
    by_cases hr : Record.announced role1 role0 = 1
    · rw [if_pos hr, if_pos hr]
      refine ⟨_, rfl, ?_, rfl⟩
      simp [accum, Accum.beginFlags, hcontent]
    · rw [if_neg hr, if_neg hr]
      exact ⟨c, rfl, rfl, rfl⟩
  · rw [if_neg h8, Accum.beginAccepted_of_lt (Nat.lt_of_not_le h8)]
    exact ⟨c, rfl, rfl, rfl⟩

/-- The `switch` of the parse loop does to the accumulators what the record calls for. -/
theorem dispatch_refines (c : Codec) {r : Record} {rest : Bytes} {header : RecordHeader}
    (hin : c.input = r.encode ++ rest) (hh : Announces header r) :
    ∃ c', c.dispatch o header = .ok c' ∧ c.Leaves c' (c.accum.handle r) := by
  have hbuf : c.buf.contents = r.encode ++ rest := hin
  have hpeek : c.buf.peekBytes kRecordHeader header.length.toNat = .ok r.contentData := by
    have hle : kRecordHeader + r.contentData.length ≤ c.buf.contents.length := by
      rw [hbuf, List.length_append, Record.length_encode, Record.total]
      omega
    rw [hh.length_eq, Buffer.peekBytes_ok hle, hbuf, content_encode]
  rw [dispatch, Accum.handle, hh.type_eq]
  cases ht : FcgiType.ofByte r.type with
  | none => exact ⟨c, rfl, rfl, rfl⟩
  | some t =>
      cases t with
      | beginRequest =>
          have hb : r.type = FcgiType.beginRequest.toByte := (FcgiType.toByte_of_ofByte ht).symm
          obtain ⟨c', hc', hleaves⟩ := c.onBeginRequest_refines o hin hh hb
          simp only [hc', bind, Except.bind]
          exact ⟨c', rfl, hleaves⟩
      | params =>
          obtain ⟨c', hc', hleaves⟩ := c.onParams_refines o r.contentData
          simp only [hpeek, hc', bind, Except.bind]
          exact ⟨c', rfl, hleaves⟩
      | stdin =>
          obtain ⟨c', hc', hleaves⟩ := c.onStdin_refines r.contentData
          simp only [hpeek, hc', bind, Except.bind]
          exact ⟨c', rfl, hleaves⟩
      -- `default:`, and the two empty cases
      | invalid | abortRequest | endRequest | stdout | stderr | data | getValues
      | getValuesResult => exact ⟨c, rfl, rfl, rfl⟩

/-! ## The parse loop -/

/-- One round of the parse loop takes the first record off the input and handles it. -/
theorem parseLoop_of_cut_some (fuel : Nat) {c : Codec} {r : Record} {rest : Bytes}
    (h : Record.cut c.input = some (r, rest)) :
    ∃ c' : Codec, c.parseLoop o (fuel + 1) = c'.parseLoop o fuel ∧ c'.accum = c.accum.handle r ∧
      c'.input = rest := by
  have hin : c.input = r.encode ++ rest := Record.eq_of_cut h
  have hbuf : c.buf.contents = r.encode ++ rest := hin
  have hlen : r.total + rest.length = c.buf.readableBytes := by
    rw [← c.buf.length_contents, hbuf, List.length_append, Record.length_encode]
  have h8 : kRecordHeader ≤ c.buf.readableBytes := by
    rw [← hlen, Record.total]
    omega
  have hmem : c.buf.peekBytes 0 kRecordHeader = .ok ((r.encode ++ rest).take kRecordHeader) := by
    rw [Buffer.peekBytes_ok (by rw [c.buf.length_contents]; omega), hbuf, List.drop_zero]
  have hh := announces_encode o r rest
  obtain ⟨c₁, hdisp, hacc, hbuf₁⟩ := c.dispatch_refines o hin hh
  have htotal : r.total ≤ c₁.buf.contents.length := by
    rw [hbuf₁, c.buf.length_contents]
    omega
  obtain ⟨buf₂, hretr, hc₂⟩ := Buffer.retrieve_ok htotal
  refine ⟨{ c₁ with buf := buf₂ }, ?_, hacc, ?_⟩
  · rw [parseLoop, if_pos h8, hmem]
    simp only [bind, Except.bind, hdisp]
    rw [hh.length_eq, hh.padding_eq, if_pos (by rw [← hlen, Record.total]; omega)]
    rw [Record.total] at hretr
    simp only [hretr]
  · show buf₂.contents = rest
    rw [hc₂, hbuf₁, hbuf, List.drop_append, Record.length_encode]
    simp

/-- The parse loop stops when no complete record is left. -/
theorem parseLoop_of_cut_none (fuel : Nat) {c : Codec} (h : Record.cut c.input = none) :
    c.parseLoop o (fuel + 1) = .ok c := by
  rw [parseLoop]
  by_cases h8 : kRecordHeader ≤ c.buf.readableBytes
  · have hlen8 : kRecordHeader ≤ c.input.length := by rw [input, c.buf.length_contents]; exact h8
    match hi : c.input, hlen8 with
    | version :: type :: i1 :: i0 :: l1 :: l0 :: padding :: reserved :: body, _ =>
      have hmem : c.buf.peekBytes 0 kRecordHeader
          = .ok [version, type, i1, i0, l1, l0, padding, reserved] := by
        rw [Buffer.peekBytes_ok (by rw [c.buf.length_contents]; omega),
          show c.buf.contents = c.input from rfl, hi]
        rfl
      have hread : c.buf.readableBytes = kRecordHeader + body.length := by
        rw [← c.buf.length_contents, show c.buf.contents = c.input from rfl, hi, kRecordHeader]
        simp only [List.length_cons]
        omega
      have hshort : ¬ Record.announced l1 l0 + padding.toNat ≤ body.length := by
        intro hle
        rw [hi, Record.cut, if_pos hle] at h
        cases h
      rw [if_pos h8, hmem]
      simp only [bind, Except.bind, toHost, RecordHeader.ofMemory, o.toNat_ntoh16_load16]
      rw [Record.announced] at hshort
      rw [if_neg (by rw [hread]; omega)]
      rfl
    | [], hlen | [_], hlen | [_, _], hlen | [_, _, _], hlen | [_, _, _, _], hlen
    | [_, _, _, _, _], hlen | [_, _, _, _, _, _], hlen | [_, _, _, _, _, _, _], hlen =>
      simp [kRecordHeader] at hlen
  · rw [if_neg h8]
    rfl

theorem parseLoop_refines (fuel : Nat) (c : Codec) (hfuel : c.input.length < fuel) :
    ∃ c', c.parseLoop o fuel = .ok c' ∧
      c'.accum = (recordFormat.frames c.input).1.foldl Accum.handle c.accum ∧
      c'.input = (recordFormat.frames c.input).2 := by
  induction fuel generalizing c with
  | zero => omega
  | succ fuel ih =>
      cases hcut : recordFormat.cut c.input with
      | none =>
          rw [recordFormat.frames_of_cut_none hcut]
          exact ⟨c, c.parseLoop_of_cut_none o fuel hcut, rfl, rfl⟩
      | some p =>
          obtain ⟨r, rest⟩ := p
          -- one record less, and the input got shorter
          have hshort := recordFormat.length_lt_of_cut hcut
          obtain ⟨c₁, hround, hacc, hin⟩ := parseLoop_of_cut_some o fuel hcut
          obtain ⟨c', hloop, hacc', hin'⟩ := ih c₁ (by rw [hin]; omega)
          rw [hin] at hacc' hin'
          rw [hround, recordFormat.frames_of_cut_some hcut]
          exact ⟨c', hloop, by rw [hacc', hacc]; rfl, hin'⟩

/-- **The parse loop refines the fold over records.** From every state it raises no fault, handles
the complete records of its input in order, and leaves the unfinished rest. -/
theorem parse_refines (c : Codec) :
    ∃ c', c.parse o = .ok c' ∧
      c'.accum = (recordFormat.frames c.input).1.foldl Accum.handle c.accum ∧
      c'.input = (recordFormat.frames c.input).2 :=
  c.parseLoop_refines o _ (by rw [input, c.buf.length_contents]; omega)

end Codec

end FastCgi
