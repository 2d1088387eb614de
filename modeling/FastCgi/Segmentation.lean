import FastCgi.Accum

/-! # The parse loops are independent of segmentation

Bytes reach a codec in whatever pieces the socket delivers. Feeding a codec is draining the
records of its pending input followed by the new bytes (`Codec.receive_parse_refines`), so by
`Framing.Format.feed_append` it does not matter where the pieces were cut, for any byte strings. -/

namespace FastCgi

namespace Codec

/-- What can be observed of a codec: its accumulators and its pending input. -/
def view (c : Codec) : Accum × Bytes := (c.accum, c.input)

/-- Append received bytes to the input buffer. -/
def receive (c : Codec) (chunk : Bytes) : Except Fault Codec := do
  let buf ← c.buf.append chunk
  return { c with buf }

theorem receive_ok (c : Codec) (chunk : Bytes) :
    ∃ c', c.receive chunk = .ok c' ∧ c'.view = (c.accum, c.input ++ chunk) := by
  obtain ⟨buf, happ, hc⟩ := c.buf.append_ok chunk
  refine ⟨{ c with buf }, ?_, ?_⟩
  · rw [receive, happ]
    rfl
  · simp only [view, input, hc]
    rfl

/-- The parse loop of a codec, as a function on what can be observed of it. -/
theorem parse_view (o : NetworkOrder) (c : Codec) :
    ∃ c', c.parse o = .ok c' ∧ c'.view = recordFormat.feed Accum.handle c.view [] := by
  obtain ⟨c', hparse, hacc, hin⟩ := c.parse_refines o
  refine ⟨c', hparse, ?_⟩
  simp only [view, hacc, hin, Framing.Format.feed, List.append_nil]

/-- **Receiving bytes and parsing** feeds them to the accumulators. -/
theorem receive_parse_refines (o : NetworkOrder) (c : Codec) (chunk : Bytes) :
    ∃ c', c.receive chunk >>= parse o = .ok c' ∧
      c'.view = recordFormat.feed Accum.handle c.view chunk := by
  obtain ⟨c₁, hrecv, hview₁⟩ := c.receive_ok chunk
  obtain ⟨c', hparse, hview⟩ := c₁.parse_view o
  refine ⟨c', by rw [hrecv]; exact hparse, ?_⟩
  rw [hview, hview₁]
  simp only [view, Framing.Format.feed, List.append_nil]

end Codec

/-! ## The rest of the input -/

/-- The size of the first record of `b`, as its header announces it. -/
def announcedTotal (b : Bytes) : Nat :=
  kRecordHeader + Record.announced (b.getD 4 0) (b.getD 5 0) + (b.getD 6 0).toNat

/-- `b` is cut short inside one record: inside its header, or before the end its header
announces. -/
def Unfinished (b : Bytes) : Prop := b.length < kRecordHeader ∨ b.length < announcedTotal b

theorem unfinished_of_cut_none {b : Bytes} (h : Record.cut b = none) : Unfinished b := by
  match b, h with
  | version :: type :: i1 :: i0 :: l1 :: l0 :: padding :: reserved :: body, h =>
    right
    -- a header is there, so the bytes it announces are not
    have hshort : ¬ Record.announced l1 l0 + padding.toNat ≤ body.length := by
      intro hle
      rw [Record.cut, if_pos hle] at h
      cases h
    simp only [announcedTotal, kRecordHeader, List.getD_cons_succ, List.getD_cons_zero,
      List.length_cons]
    omega
  | [], _ | [_], _ | [_, _], _ | [_, _, _], _ | [_, _, _, _], _ | [_, _, _, _, _], _
  | [_, _, _, _, _, _], _ | [_, _, _, _, _, _, _], _ =>
    left
    simp [kRecordHeader]

/-! ## Independence of segmentation -/

/-- A parse loop is **independent of segmentation**: on every codec and all byte strings it runs to
its end, twice on `b₁` and then `b₂` or once on both, to the same accumulators and pending input,
and what is pending after a run is cut short inside one record. -/
def SegmentationIndependent (parse : Codec → Except Fault Codec) : Prop :=
  ∀ (c : Codec) (b₁ b₂ : Bytes), ∃ c₁ c₁₂ c',
    c.receive b₁ >>= parse = .ok c₁ ∧ c₁.receive b₂ >>= parse = .ok c₁₂ ∧
      c.receive (b₁ ++ b₂) >>= parse = .ok c' ∧ c₁₂.view = c'.view ∧
      Unfinished c₁.input ∧ Unfinished c'.input

theorem Codec.parse_segmentationIndependent (o : NetworkOrder) :
    SegmentationIndependent (Codec.parse o) := by
  intro c b₁ b₂
  obtain ⟨c₁, h₁, hv₁⟩ := c.receive_parse_refines o b₁
  obtain ⟨c₁₂, h₁₂, hv₁₂⟩ := c₁.receive_parse_refines o b₂
  obtain ⟨c', h', hv'⟩ := c.receive_parse_refines o (b₁ ++ b₂)
  have hrest : ∀ {d : Codec} {b : Bytes}, d.view = recordFormat.feed Accum.handle c.view b →
      Unfinished d.input := by
    intro d b hd
    have hin : d.input = (recordFormat.frames (c.view.2 ++ b)).2 := congrArg Prod.snd hd
    rw [hin]
    exact unfinished_of_cut_none (recordFormat.cut_frames_snd _)
  refine ⟨c₁, c₁₂, c', h₁, h₁₂, h', ?_, hrest hv₁, hrest hv'⟩
  -- this is the law of formats, read on what can be observed of the codecs
  rw [hv₁₂, hv₁, recordFormat.feed_append, hv']

/-- **Both record parsers are independent of segmentation**, on every state and every input. -/
theorem parsers_segmentationIndependent :
    SegmentationIndependent Cocgi.parseFcgiPackage ∧ SegmentationIndependent Mucgi.parseRequest :=
  ⟨Codec.parse_segmentationIndependent Cocgi.order, Codec.parse_segmentationIndependent Mucgi.order⟩

end FastCgi
