import FastCgi.ByteOrder
import FastCgi.Text.StdString

/-! # The network buffer

`muduo::net::Buffer`, of which both servers carry a copy: a vector of bytes with a reader and a
writer index,

    prependable bytes | readable bytes | writable bytes
    0      <=      readerIndex   <=   writerIndex    <=     size

A `Buffer` carries the order of its indices as fields, so a buffer with crossed indices cannot be
built. Every operation checks what the source asserts and fails with the `Fault` that names the
assertion; reading through the pointer `peek()` checks that the bytes read are readable. `contents`
is the string of readable bytes, and each operation has one lemma that says what it does to it. -/

namespace FastCgi

/-- A byte string (`std::string`, or a range of a `Buffer`). -/
abbrev Bytes := List UInt8

/-- What can go wrong in a server: a violated assertion of the source, a read outside the readable
bytes, a loop that does not end, or an exception that is thrown. -/
inductive Fault
  /-- `Buffer::retrieve`: `assert(len <= readableBytes())`. -/
  | retrieve
  /-- `Buffer::retrieveAsString`: `assert(len <= readableBytes())`. -/
  | retrieveAsString
  /-- `Buffer::peekInt8`: `assert(readableBytes() >= sizeof(int8_t))`. -/
  | peekInt8
  /-- `Buffer::peekInt32`: `assert(readableBytes() >= sizeof(int32_t))`. -/
  | peekInt32
  /-- `Buffer::makeSpace`: `assert(kCheapPrepend < readerIndex_)`. -/
  | makeSpace
  /-- `Buffer::ensureWritableBytes`: `assert(writableBytes() >= len)`. -/
  | ensureWritableBytes
  /-- `Buffer::hasWritten`: `assert(len <= writableBytes())`. -/
  | hasWritten
  /-- A read through `peek()` beyond the readable bytes. -/
  | peek
  /-- `FastCgiCodec::onBeginRequest`: `assert(buf->readableBytes() >= header.length)`. -/
  | beginRequestLength
  /-- `FastCgiCodec::onBeginRequest`: `assert(header.type == kFcgiBeginRequest)`. -/
  | beginRequestType
  /-- A loop of the codec ran for more rounds than its input has bytes. -/
  | endlessLoop
  /-- An exception of the standard library. -/
  | thrown (e : StdString.Exception)
  deriving DecidableEq, Repr

instance : MonadLift (Except StdString.Exception) (Except Fault) where
  monadLift := Except.mapError .thrown

@[simp] theorem liftM_ok {α : Type} (x : α) :
    (liftM (.ok x : Except StdString.Exception α) : Except Fault α) = .ok x := rfl

/-- `Buffer::kCheapPrepend`. -/
def kCheapPrepend : Nat := 8

/-- `Buffer::kInitialSize`. -/
def kInitialSize : Nat := 1024

/-- `Buffer`: the bytes of the vector and the two indices into it. -/
structure Buffer where
  buffer : Bytes
  readerIndex : Nat
  writerIndex : Nat
  /-- No operation of the codecs moves the reader into the first `kCheapPrepend` bytes. -/
  cheapPrepend_le_reader : kCheapPrepend ≤ readerIndex
  reader_le_writer : readerIndex ≤ writerIndex
  writer_le_size : writerIndex ≤ buffer.length
  deriving DecidableEq, Repr

namespace Buffer

/-- A new buffer: `kCheapPrepend + kInitialSize` zero bytes, none of them readable. -/
def new : Buffer where
  buffer := List.replicate (kCheapPrepend + kInitialSize) 0
  readerIndex := kCheapPrepend
  writerIndex := kCheapPrepend
  cheapPrepend_le_reader := le_rfl
  reader_le_writer := le_rfl
  writer_le_size := by
    rw [List.length_replicate]
    exact Nat.le_add_right _ _

variable (b : Buffer)

def readableBytes : Nat := b.writerIndex - b.readerIndex

def writableBytes : Nat := b.buffer.length - b.writerIndex

def prependableBytes : Nat := b.readerIndex

/-- The readable bytes, those from `peek()` up to the writer index. -/
def contents : Bytes := (b.buffer.take b.writerIndex).drop b.readerIndex

@[simp] theorem length_contents : b.contents.length = b.readableBytes := by
  have h := b.writer_le_size
  simp only [contents, readableBytes, List.length_drop, List.length_take]
  omega

@[simp] theorem contents_new : new.contents = [] := by
  simp [new, contents]

/-! ## Reading -/

/-- Read `len` bytes at `peek() + off`. -/
def peekBytes (off len : Nat) : Except Fault Bytes :=
  if off + len ≤ b.readableBytes then .ok ((b.contents.drop off).take len) else .error .peek

/-- `retrieveAll`: both indices go back behind the cheap prepend area. -/
def retrieveAll : Buffer where
  buffer := b.buffer
  readerIndex := kCheapPrepend
  writerIndex := kCheapPrepend
  cheapPrepend_le_reader := le_rfl
  reader_le_writer := le_rfl
  writer_le_size :=
    b.cheapPrepend_le_reader.trans (b.reader_le_writer.trans b.writer_le_size)

/-- `retrieve`. -/
def retrieve (len : Nat) : Except Fault Buffer :=
  if len ≤ b.readableBytes then
    if h : len < b.readableBytes then
      .ok
        { b with
          readerIndex := b.readerIndex + len
          cheapPrepend_le_reader := Nat.le_add_right_of_le b.cheapPrepend_le_reader
          reader_le_writer := by rw [readableBytes] at h; omega }
    -- nothing is left, so the space in front is given back
    else .ok b.retrieveAll
  else .error .retrieve

/-- `retrieveAsString`. -/
def retrieveAsString (len : Nat) : Except Fault (Bytes × Buffer) :=
  if len ≤ b.readableBytes then do
    let result ← b.peekBytes 0 len
    let b ← b.retrieve len
    return (result, b)
  else .error .retrieveAsString

/-- `retrieveAllAsString`. -/
def retrieveAllAsString : Except Fault (Bytes × Buffer) := b.retrieveAsString b.readableBytes

/-- `peekInt8`. -/
def peekInt8 : Except Fault Int8 :=
  match b.contents with
  | x :: _ => .ok x.toInt8
  | [] => .error .peekInt8

/-- `readInt8`: `peekInt8`, then `retrieveInt8`. -/
def readInt8 : Except Fault (Int8 × Buffer) := do
  let result ← b.peekInt8
  let b ← b.retrieve 1
  return (result, b)

/-- `peekInt32`: four bytes are copied into a word, which is converted to host order. -/
def peekInt32 (o : NetworkOrder) : Except Fault Int32 :=
  match b.contents with
  | b0 :: b1 :: b2 :: b3 :: _ => .ok (o.ntoh32 (Words.load32 b0 b1 b2 b3)).toInt32
  | _ => .error .peekInt32

/-- `readInt32`: `peekInt32`, then `retrieveInt32`. -/
def readInt32 (o : NetworkOrder) : Except Fault (Int32 × Buffer) := do
  let result ← b.peekInt32 o
  let b ← b.retrieve 4
  return (result, b)

/-! ## Writing -/

/-- `makeSpace`: grow the vector, or move the readable bytes to its front. -/
def makeSpace (len : Nat) : Except Fault Buffer :=
  if b.writableBytes + b.prependableBytes < len + kCheapPrepend then
    -- `buffer_.resize(writerIndex_+len)`
    .ok
      { b with
        buffer := b.buffer.take (b.writerIndex + len) ++
          List.replicate (b.writerIndex + len - b.buffer.length) 0
        writer_le_size := by
          have h := b.writer_le_size
          simp only [List.length_append, List.length_take, List.length_replicate]
          omega }
  else if kCheapPrepend < b.readerIndex then
    .ok
      { buffer := b.buffer.take kCheapPrepend ++ b.contents ++
          b.buffer.drop (kCheapPrepend + b.readableBytes)
        readerIndex := kCheapPrepend
        writerIndex := kCheapPrepend + b.readableBytes
        cheapPrepend_le_reader := le_rfl
        reader_le_writer := Nat.le_add_right _ _
        writer_le_size := by
          have h := b.writer_le_size
          have h' : 8 ≤ b.readerIndex := b.cheapPrepend_le_reader
          have h'' := b.reader_le_writer
          simp only [List.length_append, List.length_take, length_contents, kCheapPrepend]
          omega }
  else .error .makeSpace

/-- `ensureWritableBytes`. -/
def ensureWritableBytes (len : Nat) : Except Fault Buffer := do
  let b ← if b.writableBytes < len then b.makeSpace len else pure b
  if len ≤ b.writableBytes then return b else .error .ensureWritableBytes

/-- Copy `data` behind the readable bytes (`std::copy` to `beginWrite()`) and advance the writer
(`hasWritten`). -/
def write (data : Bytes) : Except Fault Buffer :=
  if h : data.length ≤ b.writableBytes then
    .ok
      { b with
        buffer := b.buffer.take b.writerIndex ++ data ++
          b.buffer.drop (b.writerIndex + data.length)
        writerIndex := b.writerIndex + data.length
        reader_le_writer := Nat.le_add_right_of_le b.reader_le_writer
        writer_le_size := by
          have h' := b.writer_le_size
          simp only [writableBytes] at h
          simp only [List.length_append, List.length_take, List.length_drop]
          omega }
  else .error .hasWritten

/-- `append`. -/
def append (data : Bytes) : Except Fault Buffer := do
  let b ← b.ensureWritableBytes data.length
  b.write data

/-- `appendInt32`: the word is converted to network order, and its memory appended. -/
def appendInt32 (o : NetworkOrder) (x : Int32) : Except Fault Buffer :=
  b.append (Words.store32 (o.hton32 x.toUInt32))

/-- `readFd`, when `readv` returned the bytes `data`: what fits is stored in place, the rest comes
from the stack and is appended. -/
def readFd (data : Bytes) : Except Fault Buffer :=
  if data.length ≤ b.writableBytes then b.write data
  else do
    let b' ← b.write (data.take b.writableBytes)
    b'.append (data.drop b.writableBytes)

/-! ## What the operations do to the contents -/

variable {b} {len : Nat} {data : Bytes}

theorem peekBytes_ok {off : Nat} (h : off + len ≤ b.contents.length) :
    b.peekBytes off len = .ok ((b.contents.drop off).take len) := by
  rw [length_contents] at h
  rw [peekBytes, if_pos h]

@[simp] theorem contents_retrieveAll : b.retrieveAll.contents = [] := by
  simp [retrieveAll, contents]

/-- Retrieving readable bytes succeeds and drops them from the front. -/
theorem retrieve_ok (h : len ≤ b.contents.length) :
    ∃ b', b.retrieve len = .ok b' ∧ b'.contents = b.contents.drop len := by
  rw [length_contents] at h
  rw [retrieve, if_pos h]
  by_cases hlt : len < b.readableBytes
  · rw [dif_pos hlt]
    refine ⟨_, rfl, ?_⟩
    simp only [contents, List.drop_drop]
  · -- all bytes are taken, so the indices are reset
    rw [dif_neg hlt]
    refine ⟨_, rfl, ?_⟩
    rw [contents_retrieveAll, List.drop_eq_nil_of_le (by rw [length_contents]; omega)]

theorem retrieveAsString_ok (h : len ≤ b.contents.length) :
    ∃ b', b.retrieveAsString len = .ok (b.contents.take len, b') ∧
      b'.contents = b.contents.drop len := by
  obtain ⟨b', hb', hc⟩ := retrieve_ok h
  refine ⟨b', ?_, hc⟩
  have hpeek : b.peekBytes 0 len = .ok (b.contents.take len) := by
    rw [peekBytes_ok (by omega), List.drop_zero]
  rw [retrieveAsString, if_pos (by rwa [← length_contents]), hpeek]
  simp only [bind, Except.bind, hb']
  rfl

theorem peekInt8_ok {x : UInt8} {rest : Bytes} (h : b.contents = x :: rest) :
    b.peekInt8 = .ok x.toInt8 := by
  rw [peekInt8, h]

theorem readInt8_ok {x : UInt8} {rest : Bytes} (h : b.contents = x :: rest) :
    ∃ b', b.readInt8 = .ok (x.toInt8, b') ∧ b'.contents = rest := by
  obtain ⟨b', hb', hc⟩ : ∃ b', b.retrieve 1 = .ok b' ∧ b'.contents = b.contents.drop 1 :=
    retrieve_ok (by rw [h]; simp)
  refine ⟨b', ?_, by rw [hc, h]; rfl⟩
  rw [readInt8, peekInt8_ok h]
  simp only [bind, Except.bind, hb']
  rfl

theorem readInt32_ok (o : NetworkOrder) {b0 b1 b2 b3 : UInt8} {rest : Bytes}
    (h : b.contents = b0 :: b1 :: b2 :: b3 :: rest) :
    ∃ b', b.readInt32 o = .ok ((Words.load32 b3 b2 b1 b0).toInt32, b') ∧ b'.contents = rest := by
  obtain ⟨b', hb', hc⟩ : ∃ b', b.retrieve 4 = .ok b' ∧ b'.contents = b.contents.drop 4 :=
    retrieve_ok (by rw [h]; simp)
  refine ⟨b', ?_, by rw [hc, h]; rfl⟩
  simp only [readInt32, peekInt32, h, o.ntoh32_load32, bind, Except.bind, hb']
  rfl

/-- Making space succeeds whenever it is called for, and moves no readable byte. -/
theorem makeSpace_ok (h : b.writableBytes < len) :
    ∃ b', b.makeSpace len = .ok b' ∧ b'.contents = b.contents ∧ len ≤ b'.writableBytes := by
  have hws := b.writer_le_size
  have hrw := b.reader_le_writer
  have hcr : 8 ≤ b.readerIndex := b.cheapPrepend_le_reader
  simp only [writableBytes] at h
  rw [makeSpace]
  by_cases hgrow : b.writableBytes + b.prependableBytes < len + kCheapPrepend
  · rw [if_pos hgrow]
    refine ⟨_, rfl, ?_, ?_⟩
    · simp only [contents]
      rw [List.take_of_length_le (by omega : b.buffer.length ≤ b.writerIndex + len),
        List.take_append_of_le_length hws]
    · simp only [writableBytes, List.length_append, List.length_take, List.length_replicate]
      omega
  · rw [if_neg hgrow]
    simp only [writableBytes, prependableBytes, kCheapPrepend] at hgrow
    rw [if_pos (by rw [kCheapPrepend]; omega)]
    refine ⟨_, rfl, ?_, ?_⟩
    · have htake : (b.buffer.take kCheapPrepend).length = kCheapPrepend := by
        rw [List.length_take, kCheapPrepend]
        omega
      show ((b.buffer.take kCheapPrepend ++ b.contents ++
        b.buffer.drop (kCheapPrepend + b.readableBytes)).take
          (kCheapPrepend + b.readableBytes)).drop kCheapPrepend = b.contents
      rw [List.take_append_of_le_length (by simp [htake]), List.take_of_length_le (by simp [htake]),
        List.drop_append, htake]
      simp
    · simp only [writableBytes, List.length_append, List.length_take, List.length_drop,
        length_contents, readableBytes, kCheapPrepend]
      omega

theorem ensureWritableBytes_ok (b : Buffer) (len : Nat) :
    ∃ b', b.ensureWritableBytes len = .ok b' ∧ b'.contents = b.contents ∧
      len ≤ b'.writableBytes := by
  rw [ensureWritableBytes]
  by_cases h : b.writableBytes < len
  · obtain ⟨b', hb', hc, hw⟩ := makeSpace_ok h
    refine ⟨b', ?_, hc, hw⟩
    rw [if_pos h, hb']
    simp only [bind, Except.bind, if_pos hw]
    rfl
  · have hw : len ≤ b.writableBytes := Nat.le_of_not_lt h
    refine ⟨b, ?_, rfl, hw⟩
    rw [if_neg h]
    simp only [bind, Except.bind, pure, Except.pure, if_pos hw]

theorem write_ok (h : data.length ≤ b.writableBytes) :
    ∃ b', b.write data = .ok b' ∧ b'.contents = b.contents ++ data := by
  have hws := b.writer_le_size
  have hrw := b.reader_le_writer
  refine ⟨_, dif_pos h, ?_⟩
  have htake : (b.buffer.take b.writerIndex).length = b.writerIndex := by
    rw [List.length_take]
    omega
  simp only [contents]
  rw [List.take_append_of_le_length (by rw [List.length_append, htake]),
    List.take_of_length_le (by rw [List.length_append, htake]),
    List.drop_append_of_le_length (by rw [htake]; exact hrw)]

/-- **Appending always succeeds**, and adds the data behind the readable bytes. -/
theorem append_ok (b : Buffer) (data : Bytes) :
    ∃ b', b.append data = .ok b' ∧ b'.contents = b.contents ++ data := by
  obtain ⟨b₁, h₁, hc₁, hw₁⟩ := ensureWritableBytes_ok b data.length
  obtain ⟨b₂, h₂, hc₂⟩ := write_ok hw₁
  refine ⟨b₂, ?_, by rw [hc₂, hc₁]⟩
  rw [append, h₁]
  exact h₂

/-- Reading from a socket always succeeds, and adds the data behind the readable bytes. -/
theorem readFd_ok (b : Buffer) (data : Bytes) :
    ∃ b', b.readFd data = .ok b' ∧ b'.contents = b.contents ++ data := by
  rw [readFd]
  by_cases h : data.length ≤ b.writableBytes
  · rw [if_pos h]
    exact write_ok h
  · rw [if_neg h]
    -- `extrabuf` holds what did not fit
    have hfit : (data.take b.writableBytes).length ≤ b.writableBytes := by
      rw [List.length_take]
      omega
    obtain ⟨b₁, h₁, hc₁⟩ := write_ok hfit
    obtain ⟨b₂, h₂, hc₂⟩ := append_ok b₁ (data.drop b.writableBytes)
    refine ⟨b₂, ?_, by rw [hc₂, hc₁, List.append_assoc, List.take_append_drop]⟩
    rw [h₁]
    exact h₂

end Buffer

end FastCgi
