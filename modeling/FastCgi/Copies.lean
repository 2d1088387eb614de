import FastCgi.Respond
import FastCgi.Segmentation

/-! # The two copies of the codec

`cocgi` and `mucgi` each carry a copy of the codec. The copies convert byte order by different
means: `cocgi` with macros that mask and shift, `mucgi` with `htobe16` and its like. On a
little-endian host all of them reverse bytes (`order_eq`), so from one state the copies do the same,
down to the layout of their buffers.

The servers do not share buffers, though, and the same contents may lie differently in two of them.
`codecs_equivalent` therefore compares what can be observed: from states that look the same the two
parse loops reach states that look the same, and behind the same contents the two `respond` write
the same bytes. -/

namespace FastCgi

/-- The macros of `cocgi` and the functions of `mucgi` are the same conversions. -/
theorem order_eq : Cocgi.order = Mucgi.order := by
  have h16 : Cocgi.hton16 = Words.swap16 := by
    funext x
    exact Cocgi.hton16_eq x
  have h32 : Cocgi.hton32 = Words.swap32 := by
    funext x
    exact Cocgi.hton32_eq x
  simp only [Cocgi.order, Mucgi.order, h16, h32]
  rfl

/-- **The two copies of the codec are equivalent.** From one state the parse loops reach one state,
and `respond` fills one buffer in the same way; and the same holds of what can be observed, when
the states and buffers only look the same. -/
theorem codecs_equivalent (c c' : Codec) (hview : c.view = c'.view) (response response' : Buffer)
    (hcontents : response.contents = response'.contents) (out : Bytes) :
    (Cocgi.parseFcgiPackage c = Mucgi.parseRequest c ∧
        Cocgi.respond out response = Mucgi.respond out response) ∧
      (∃ d d', Cocgi.parseFcgiPackage c = .ok d ∧ Mucgi.parseRequest c' = .ok d' ∧
        d.view = d'.view) ∧
      ∃ b b', Cocgi.respond out response = .ok b ∧ Mucgi.respond out response' = .ok b' ∧
        b.contents = b'.contents := by
  refine ⟨⟨?_, ?_⟩, ?_, ?_⟩
  · rw [Cocgi.parseFcgiPackage, Mucgi.parseRequest, order_eq]
  · rw [Cocgi.respond, Mucgi.respond, order_eq]
  · obtain ⟨d, hparse, hd⟩ := c.parse_view Cocgi.order
    obtain ⟨d', hparse', hd'⟩ := c'.parse_view Mucgi.order
    refine ⟨d, d', hparse, hparse', ?_⟩
    rw [hd, hd', hview]
  · obtain ⟨b, hresp, hb⟩ := Codec.respond_ok Cocgi.order out response
    obtain ⟨b', hresp', hb'⟩ := Codec.respond_ok Mucgi.order out response'
    refine ⟨b, b', hresp, hresp', ?_⟩
    rw [hb, hb', hcontents]

/-- A buffer with some bytes to read, behind others that have been read. -/
def Buffer.holding (skipped bytes : Bytes) : Buffer where
  buffer := List.replicate kCheapPrepend 0 ++ (skipped ++ bytes)
  readerIndex := kCheapPrepend + skipped.length
  writerIndex := kCheapPrepend + (skipped.length + bytes.length)
  cheapPrepend_le_reader := Nat.le_add_right _ _
  reader_le_writer := Nat.add_le_add_left (Nat.le_add_right _ _) _
  writer_le_size := by simp

/-- `BEGIN_REQUEST` of a connection that is to be kept, and the beginning of another record. -/
def beginning : Bytes := [1, 1, 0, 1, 0, 8, 0, 0, 0, 1, 1, 0, 0, 0, 0, 0, 1, 4, 0]

/-- Two codecs hold the same records at different places of their buffers, and two buffers the same
bytes in front of a response. -/
theorem codecs_equivalent_holding :
    (Buffer.holding [] beginning ≠ Buffer.holding [9, 9] beginning ∧
      (Cocgi.parseFcgiPackage { Codec.new with buf := Buffer.holding [] beginning }).toOption.map
        (fun d => (d.keepConn, d.input)) = some (true, [1, 4, 0])) ∧
      (∃ d d',
        Cocgi.parseFcgiPackage { Codec.new with buf := Buffer.holding [] beginning } = .ok d ∧
        Mucgi.parseRequest { Codec.new with buf := Buffer.holding [9, 9] beginning } = .ok d' ∧
        d.view = d'.view) ∧
      ∃ b b', Cocgi.respond [104, 105] (Buffer.holding [] [7]) = .ok b ∧
        Mucgi.respond [104, 105] (Buffer.holding [9] [7]) = .ok b' ∧ b.contents = b'.contents := by
  have hview : Codec.view { Codec.new with buf := Buffer.holding [] beginning } =
      Codec.view { Codec.new with buf := Buffer.holding [9, 9] beginning } := rfl
  have hcontents : (Buffer.holding [] [7]).contents = (Buffer.holding [9] [7]).contents := rfl
  exact ⟨⟨by decide, by rfl⟩, (codecs_equivalent _ _ hview _ _ hcontents [104, 105]).2⟩

end FastCgi
