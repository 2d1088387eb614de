import FastCgi.Accum

/-! # The grammar of the params stream

A params stream is well formed when it is a concatenation of encoded pairs. `parseAllParams`
decides exactly this: it returns `true` on these streams and no others, and what it stores of a
stream are the pairs of the longest part at its front that is well formed
(`parseAllParams_acceptsGrammar`).

The code compares the lengths it reads with an error value of the same type and adds two of them in
32 bits. `Codec.readsLengths` and `Codec.addsLengths` say that neither goes wrong on any stream: a
decoded length has 31 bits. -/

namespace FastCgi

namespace Accum

/-- The params stream is parsed iff it consists of name-value pairs. -/
theorem parseAllParams_fst_iff (s : Accum) :
    s.parseAllParams.1 = true ↔
      ∃ pairs : List Pair, s.paramsStream = pairs.flatMap Pair.encode := by
  rw [parseAllParams, List.isEmpty_iff]
  constructor
  · intro hrest
    refine ⟨(pairFormat.frames s.paramsStream).1, ?_⟩
    have hround := pairFormat.flatMap_encode_frames s.paramsStream
    rw [hrest, List.append_nil] at hround
    exact hround.symm
  · rintro ⟨pairs, hpairs⟩
    rw [hpairs]
    exact congrArg Prod.snd (pairFormat.frames_flatMap_encode pairs)

/-- Then nothing is left in it. -/
theorem paramsStream_parseAllParams {s : Accum} (h : s.parseAllParams.1 = true) :
    s.parseAllParams.2.paramsStream = [] := by
  rw [parseAllParams, List.isEmpty_iff] at h
  simp only [parseAllParams, h, residue_nil]

end Accum

/-! ## Lengths -/

namespace Codec

variable (o : NetworkOrder)

/-- `readLen` is **exact**: it returns the error value iff no length is there, and else the length,
which has 31 bits. -/
def ReadsLengths : Prop :=
  ∀ stream : Buffer, ∃ len stream', readLen o stream = .ok (len, stream') ∧
    (len = noLength ↔ FieldLength.cut stream.contents = none) ∧
    ∀ l rest, FieldLength.cut stream.contents = some (l, rest) →
      len.toNat = l.value ∧ len.toNat < 2 ^ 31 ∧ stream'.contents = rest

/-- Adding lengths that were read **does not wrap**. -/
def AddsLengths : Prop :=
  ∀ (nameStream valueStream nameStream' valueStream' : Buffer) (nameLen valueLen : UInt32),
    readLen o nameStream = .ok (nameLen, nameStream') → nameLen ≠ noLength →
    readLen o valueStream = .ok (valueLen, valueStream') → valueLen ≠ noLength →
      (nameLen + valueLen).toNat = nameLen.toNat + valueLen.toNat

theorem readsLengths : ReadsLengths o := by
  intro stream
  cases hcut : FieldLength.cut stream.contents with
  | none =>
      refine ⟨noLength, stream, readLen_none o hcut, by simp, ?_⟩
      intro l rest h
      cases h
  | some p =>
      obtain ⟨l, rest⟩ := p
      obtain ⟨stream', hread, hrest⟩ := readLen_ok o hcut
      refine ⟨_, stream', hread, by simp [fieldLength_ne_noLength l], ?_⟩
      rintro l' rest' ⟨⟩
      rw [toNat_fieldLength]
      exact ⟨rfl, l.fits.lt, hrest⟩

theorem addsLengths : AddsLengths o := by
  intro nameStream valueStream nameStream' valueStream' nameLen valueLen hname hnameLen hvalue
    hvalueLen
  -- what was read and is not the error value was decoded from the stream
  have hlt : ∀ {stream stream' : Buffer} {len : UInt32}, readLen o stream = .ok (len, stream') →
      len ≠ noLength → len.toNat < 2 ^ 31 := by
    intro stream stream' len hread hlen
    obtain ⟨len', stream'', hread', hnone, hsome⟩ := readsLengths o stream
    rw [hread, Except.ok.injEq, Prod.mk.injEq] at hread'
    obtain ⟨rfl, -⟩ := hread'
    cases hcut : FieldLength.cut stream.contents with
    | none => exact absurd (hnone.mpr hcut) hlen
    | some p =>
        obtain ⟨l, rest⟩ := p
        exact (hsome l rest hcut).2.1
  have hn := hlt hname hnameLen
  have hv := hlt hvalue hvalueLen
  rw [UInt32.toNat_add]
  omega

end Codec

/-! ## Acceptance -/

/-- The pairs of the longest part at the front of `b` that is a concatenation of encoded pairs. -/
def LongestPairs (b : Bytes) (pairs : List Pair) : Prop :=
  pairs.flatMap Pair.encode <+: b ∧
    ∀ pairs' : List Pair, pairs'.flatMap Pair.encode <+: b → pairs' <+: pairs

theorem longestPairs_frames (b : Bytes) : LongestPairs b (pairFormat.frames b).1 :=
  ⟨⟨_, pairFormat.flatMap_encode_frames b⟩, fun _ h => pairFormat.prefix_frames h⟩

/-- Parsing the params stream **accepts the grammar**: it returns, and `true` iff the stream is a
concatenation of encoded pairs; then the stream is used up and the pairs are stored in order. Else
the pairs of the longest well-formed part at the front of the stream are stored. -/
def AcceptsGrammar (parseAllParams : Codec → Except Fault (Bool × Codec)) : Prop :=
  ∀ c : Codec, ∃ ok c', parseAllParams c = .ok (ok, c') ∧
    (ok = true ↔ ∃ pairs : List Pair, c.paramsStream.contents = pairs.flatMap Pair.encode) ∧
    (∀ pairs : List Pair, c.paramsStream.contents = pairs.flatMap Pair.encode →
      c'.paramsStream.contents = [] ∧ c'.params = storePairs c.params pairs) ∧
    (ok = false → ∃ pairs, LongestPairs c.paramsStream.contents pairs ∧
      c'.params = storePairs c.params pairs)

theorem Codec.parseAllParams_accepts (o : NetworkOrder) :
    AcceptsGrammar (Codec.parseAllParams o) := by
  intro c
  obtain ⟨c', hparse, hacc, -⟩ := c.parseAllParams_refines o
  have hparams : c'.params
      = storePairs c.params (pairFormat.frames c.paramsStream.contents).1 :=
    congrArg Accum.params hacc
  refine ⟨_, c', hparse, c.accum.parseAllParams_fst_iff, ?_, fun _ => ?_⟩
  · intro pairs hpairs
    have hok : c.accum.parseAllParams.1 = true :=
      c.accum.parseAllParams_fst_iff.mpr ⟨pairs, hpairs⟩
    refine ⟨?_, ?_⟩
    · rw [← Accum.paramsStream_parseAllParams hok, ← hacc]
      rfl
    · rw [hparams, hpairs]
      exact congrArg (fun frames => storePairs c.params frames.1)
        (pairFormat.frames_flatMap_encode pairs)
  · exact ⟨_, longestPairs_frames _, hparams⟩

/-- **`parseAllParams` of both servers accepts exactly the name-value grammar**, and neither the
error value nor the 32-bit sum of two lengths gets in its way. -/
theorem parseAllParams_acceptsGrammar :
    (AcceptsGrammar (Codec.parseAllParams Cocgi.order) ∧ Codec.ReadsLengths Cocgi.order ∧
        Codec.AddsLengths Cocgi.order) ∧
      AcceptsGrammar (Codec.parseAllParams Mucgi.order) ∧ Codec.ReadsLengths Mucgi.order ∧
        Codec.AddsLengths Mucgi.order :=
  ⟨⟨Codec.parseAllParams_accepts _, Codec.readsLengths _, Codec.addsLengths _⟩,
    Codec.parseAllParams_accepts _, Codec.readsLengths _, Codec.addsLengths _⟩

end FastCgi
