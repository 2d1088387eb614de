import FastCgi.NameValue

/-! # The record codec

The state of a `FastCgiCodec` and the code that drains its input buffer: `onBeginRequest`,
`onParams`, `onStdin`, `parseAllParams`, `readLen` and the parse loop. `cocgi` and `mucgi` carry
two copies of this code, which differ in nothing but the byte-order conversions they call; the
definitions take these as the parameter `o : NetworkOrder`, and each server's own parse loop is the
instance at its byte order (`Cocgi.parseFcgiPackage`, `Mucgi.parseRequest`).

Everything runs in `Except Fault`, so a violated assertion or a read outside a buffer is visible. -/

namespace FastCgi

/-- The data members of `FastCgiCodec` that the parse code works on. `cocgi` owns the input buffer
as `m_buf`; in `mucgi` it is the connection's input buffer, handed to every call of
`parseRequest`. -/
structure Codec where
  gotRequest : Bool
  keepConn : Bool
  buf : Buffer
  stdin : Buffer
  paramsStream : Buffer
  params : ParamMap

namespace Codec

/-- A newly constructed codec. -/
def new : Codec := ⟨false, false, .new, .new, .new, ∅⟩

/-- `static_cast<uint32_t>(-1)`, what `readLen` returns for a length that is not there. -/
def noLength : UInt32 := 0xffffffff

/-- `enum FcgiRole`: `kFcgiResponder`. -/
def kFcgiResponder : UInt16 := 1

/-- `enum FcgiConstant`: `kFcgiKeepConn`. -/
def kFcgiKeepConn : UInt8 := 1

variable (o : NetworkOrder)

/-- `readLen`, on the params stream. A one-byte length is returned by sign extension of an
`int8_t`, a four-byte length by masking off the top bit of an `int32_t`. -/
def readLen (stream : Buffer) : Except Fault (UInt32 × Buffer) :=
  if 1 ≤ stream.readableBytes then do
    let byte := (← stream.peekInt8).toUInt8
    if byte &&& 0x80 ≠ 0 then
      if 4 ≤ stream.readableBytes then do
        let (x, stream) ← stream.readInt32 o
        return ((x &&& 0x7fffffff).toUInt32, stream)
      -- the length has not arrived completely
      else return (noLength, stream)
    else do
      let (x, stream) ← stream.readInt8
      return (x.toInt32.toUInt32, stream)
  else return (noLength, stream)

/-- The loop of `parseAllParams`: its result, the params stream and the map it leaves. The sum of
the two lengths is computed in `uint32_t`. -/
def parseAllParamsLoop : Nat → Buffer → ParamMap → Except Fault (Bool × Buffer × ParamMap)
  | 0, _, _ => .error .endlessLoop
  | fuel + 1, stream, params =>
    if 0 < stream.readableBytes then do
      let (nameLen, stream) ← readLen o stream
      if nameLen = noLength then return (false, stream, params)
      else do
        let (valueLen, stream) ← readLen o stream
        if valueLen = noLength then return (false, stream, params)
        else if (nameLen + valueLen).toNat ≤ stream.readableBytes then do
          let (name, stream) ← stream.retrieveAsString nameLen.toNat
          let (value, stream) ← stream.retrieveAsString valueLen.toNat
          parseAllParamsLoop fuel stream (params.insert name value)
        -- the two lengths are gone from the stream, the bytes they announce stay
        else return (false, stream, params)
    else return (true, stream, params)

/-- `parseAllParams`. -/
def parseAllParams (c : Codec) : Except Fault (Bool × Codec) := do
  let (ok, paramsStream, params) ←
    parseAllParamsLoop o (c.paramsStream.readableBytes + 1) c.paramsStream c.params
  return (ok, { c with paramsStream, params })

/-- `onParams`. -/
def onParams (c : Codec) (content : Bytes) : Except Fault (Bool × Codec) :=
  if 0 < content.length then do
    let paramsStream ← c.paramsStream.append content
    return (true, { c with paramsStream })
  -- an empty record closes the stream
  else c.parseAllParams o

/-- `onStdin`. -/
def onStdin (c : Codec) (content : Bytes) : Except Fault Codec :=
  if 0 < content.length then do
    let stdin ← c.stdin.append content
    return { c with stdin }
  -- an empty record closes the body, and with it the request
  else return { c with gotRequest := true }

/-- `readInt16(buf->peek() + off)`. -/
def readInt16 (buf : Buffer) (off : Nat) : Except Fault UInt16 := do
  match ← buf.peekBytes off 2 with
  | [b0, b1] => return o.ntoh16 (Words.load16 b0 b1)
  | _ => .error .peek

/-- `buf->peek()[off]`, as a `uint8_t`. -/
def byteAt (buf : Buffer) (off : Nat) : Except Fault UInt8 := do
  match ← buf.peekBytes off 1 with
  | [x] => return x
  | _ => .error .peek

/-- `onBeginRequest`. -/
def onBeginRequest (c : Codec) (header : RecordHeader) : Except Fault (Bool × Codec) :=
  -- the two assertions
  if c.buf.readableBytes < header.length.toNat then .error .beginRequestLength
  else if header.type ≠ FcgiType.beginRequest.toByte then .error .beginRequestType
  else if kRecordHeader ≤ header.length.toNat then do
    let role ← readInt16 o c.buf kRecordHeader
    let flags ← byteAt c.buf (kRecordHeader + 2)
    if role = kFcgiResponder then return (true, { c with keepConn := flags == kFcgiKeepConn })
    else return (false, c)
  else return (false, c)

/-- The `switch` of the parse loop. The results of `onBeginRequest` and `onParams` are dropped. -/
def dispatch (c : Codec) (header : RecordHeader) : Except Fault Codec :=
  match FcgiType.ofByte header.type with
  | some .beginRequest => do
    let (_, c) ← c.onBeginRequest o header
    return c
  | some .params => do
    let content ← c.buf.peekBytes kRecordHeader header.length.toNat
    let (_, c) ← c.onParams o content
    return c
  | some .stdin => do
    let content ← c.buf.peekBytes kRecordHeader header.length.toNat
    c.onStdin content
  | some .data => return c
  | some .getValues => return c
  | _ => return c

/-- Convert the two words of a header to host order, as the parse loop does after copying it. -/
def toHost (header : RecordHeader) : RecordHeader :=
  { header with id := o.ntoh16 header.id, length := o.ntoh16 header.length }

/-- The parse loop. -/
def parseLoop : Nat → Codec → Except Fault Codec
  | 0, _ => .error .endlessLoop
  | fuel + 1, c =>
    if kRecordHeader ≤ c.buf.readableBytes then do
      -- `memcpy(&header, buf->peek(), kRecordHeader)`
      let memory ← c.buf.peekBytes 0 kRecordHeader
      let header := toHost o (.ofMemory memory)
      let total := kRecordHeader + header.length.toNat + header.padding.toNat
      if total ≤ c.buf.readableBytes then do
        let c ← c.dispatch o header
        let buf ← c.buf.retrieve total
        parseLoop fuel { c with buf }
      else return c
    else return c

/-- Drain the input buffer of every complete record. -/
def parse (c : Codec) : Except Fault Codec := parseLoop o (c.buf.readableBytes + 1) c

/-- What both servers clear once a request has been handled. -/
def clearRequest (c : Codec) : Codec :=
  { c with
    stdin := c.stdin.retrieveAll
    paramsStream := c.paramsStream.retrieveAll
    params := ∅
    gotRequest := false }

end Codec

/-- `FastCgiCodec::parseFcgiPackage` of `cocgi` (it always returns `true`). -/
def Cocgi.parseFcgiPackage (c : Codec) : Except Fault Codec := c.parse Cocgi.order

/-- `FastCgiCodec::parseRequest` of `mucgi` (it always returns `true`). -/
def Mucgi.parseRequest (c : Codec) : Except Fault Codec := c.parse Mucgi.order

end FastCgi
