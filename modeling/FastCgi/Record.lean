import FastCgi.Buffer
import FastCgi.Framing.Format

/-! # Protocol records

A FastCGI record on the wire is an 8-byte header, the content and the padding:

    version type requestIdB1 requestIdB0 contentLengthB1 contentLengthB0 paddingLength reserved
    contentData[contentLength] paddingData[paddingLength]

`Record` is such a record with its two lengths bounded by what the header can announce, and
`recordFormat` is the self-delimiting format of records: what both servers decode their input with
and encode their answers in. `RecordHeader` is the C++ structure the codecs copy the header into. -/

namespace FastCgi

open Words

/-- `enum FcgiType`. -/
inductive FcgiType
  | invalid
  | beginRequest
  | abortRequest
  | endRequest
  | params
  | stdin
  | stdout
  | stderr
  | data
  | getValues
  | getValuesResult
  deriving DecidableEq, Repr

/-- The value of a record type in the header. -/
def FcgiType.toByte : FcgiType → UInt8
  | .invalid => 0
  | .beginRequest => 1
  | .abortRequest => 2
  | .endRequest => 3
  | .params => 4
  | .stdin => 5
  | .stdout => 6
  | .stderr => 7
  | .data => 8
  | .getValues => 9
  | .getValuesResult => 10

/-- The record type a header byte stands for, if it is one of the enumeration. -/
def FcgiType.ofByte (t : UInt8) : Option FcgiType :=
  [.invalid, .beginRequest, .abortRequest, .endRequest, .params, .stdin, .stdout, .stderr, .data,
    .getValues, .getValuesResult].find? (·.toByte == t)

theorem FcgiType.toByte_of_ofByte {b : UInt8} {t : FcgiType} (h : FcgiType.ofByte b = some t) :
    t.toByte = b := by
  have hfind := List.find?_some h
  exact beq_iff_eq.mp hfind

/-- `kRecordHeader`, the size of a record header. -/
def kRecordHeader : Nat := 8

/-- `struct RecordHeader` (`FcgiRecordHeader` in `cocgi`). -/
structure RecordHeader where
  version : UInt8
  type : UInt8
  id : UInt16
  length : UInt16
  padding : UInt8
  unused : UInt8
  deriving DecidableEq, Repr

namespace RecordHeader

/-- The header as it lies in the memory of a little-endian host. -/
def toMemory (h : RecordHeader) : Bytes :=
  [h.version, h.type] ++ store16 h.id ++ store16 h.length ++ [h.padding, h.unused]

/-- `memcpy(&header, p, kRecordHeader)`: the header whose memory are the bytes at `p`. -/
def ofMemory : Bytes → RecordHeader
  | [version, type, i0, i1, l0, l1, padding, unused] =>
    ⟨version, type, load16 i0 i1, load16 l0 l1, padding, unused⟩
  | _ => ⟨0, 0, 0, 0, 0, 0⟩

end RecordHeader

/-! ## Records on the wire -/

/-- A **record** of the protocol, as laid out in the comment on `FCGI_Record`. -/
structure Record where
  version : UInt8
  type : UInt8
  requestIdB1 : UInt8
  requestIdB0 : UInt8
  reserved : UInt8
  contentData : Bytes
  paddingData : Bytes
  /-- The content length is announced in two bytes. -/
  content_lt : contentData.length < 2 ^ 16
  /-- The padding length is announced in one byte. -/
  padding_lt : paddingData.length < 2 ^ 8
  deriving DecidableEq, Repr

namespace Record

theorem content_nil_lt : ([] : Bytes).length < 2 ^ 16 := by decide

theorem padding_nil_lt : ([] : Bytes).length < 2 ^ 8 := by decide

/-- The bytes of a record. -/
def encode (r : Record) : Bytes :=
  [r.version, r.type, r.requestIdB1, r.requestIdB0, (r.contentData.length / 256).toUInt8,
    r.contentData.length.toUInt8, r.paddingData.length.toUInt8, r.reserved] ++
    (r.contentData ++ r.paddingData)

/-- The length of a record, `total` in the parse loops. -/
def total (r : Record) : Nat := kRecordHeader + r.contentData.length + r.paddingData.length

@[simp] theorem length_encode (r : Record) : r.encode.length = r.total := by
  simp only [encode, total, kRecordHeader, List.length_append, List.length_cons, List.length_nil]
  omega

/-- The content length announced by the bytes `l1 l0`. -/
def announced (l1 l0 : UInt8) : Nat := 256 * l1.toNat + l0.toNat

theorem announced_lt (l1 l0 : UInt8) : announced l1 l0 < 2 ^ 16 := by
  have h1 := l1.toNat_lt
  have h0 := l0.toNat_lt
  rw [announced]
  omega

/-- Take the first record off a byte string: a header must be there, and all the bytes it
announces. -/
def cut : Bytes → Option (Record × Bytes)
  | version :: type :: i1 :: i0 :: l1 :: l0 :: padding :: reserved :: body =>
    if announced l1 l0 + padding.toNat ≤ body.length then
      some
        ({ version
           type
           requestIdB1 := i1
           requestIdB0 := i0
           reserved
           contentData := body.take (announced l1 l0)
           paddingData := (body.drop (announced l1 l0)).take padding.toNat
           content_lt := (List.length_take_le _ _).trans_lt (announced_lt l1 l0)
           padding_lt := (List.length_take_le _ _).trans_lt padding.toNat_lt },
         body.drop (announced l1 l0 + padding.toNat))
    else none
  | _ => none

theorem announced_toUInt8 {n : Nat} (h : n < 2 ^ 16) :
    announced (n / 256).toUInt8 n.toUInt8 = n := by
  simp only [announced, Nat.toUInt8_eq, UInt8.toNat_ofNat']
  omega

theorem toNat_toUInt8 {n : Nat} (h : n < 2 ^ 8) : n.toUInt8.toNat = n := by
  simp only [Nat.toUInt8_eq, UInt8.toNat_ofNat']
  omega

theorem cut_encode (r : Record) (b : Bytes) : cut (r.encode ++ b) = some (r, b) := by
  have hc := announced_toUInt8 r.content_lt
  have hp := toNat_toUInt8 r.padding_lt
  simp only [encode, List.cons_append, List.nil_append, cut, hc, hp, List.append_assoc]
  rw [if_pos (by simp only [List.length_append]; omega)]
  simp [List.drop_append]

theorem eq_of_cut {b rest : Bytes} {r : Record} (h : cut b = some (r, rest)) :
    b = r.encode ++ rest := by
  match b, h with
  | version :: type :: i1 :: i0 :: l1 :: l0 :: padding :: reserved :: body, h =>
    simp only [cut] at h
    split at h
    case isFalse => cases h
    case isTrue hle =>
      simp only [Option.some.injEq, Prod.mk.injEq] at h
      obtain ⟨rfl, rfl⟩ := h
      have h1 := l1.toNat_lt
      have h0 := l0.toNat_lt
      have hcontent : (body.take (announced l1 l0)).length = announced l1 l0 := by
        rw [List.length_take]
        omega
      have hpadding : ((body.drop (announced l1 l0)).take padding.toNat).length
          = padding.toNat := by
        rw [List.length_take, List.length_drop]
        omega
      have hl1 : (announced l1 l0 / 256).toUInt8 = l1 := by
        apply UInt8.toNat.inj
        simp only [announced, Nat.toUInt8_eq, UInt8.toNat_ofNat']
        omega
      have hl0 : (announced l1 l0).toUInt8 = l0 := by
        apply UInt8.toNat.inj
        simp only [announced, Nat.toUInt8_eq, UInt8.toNat_ofNat']
        omega
      have hpad : padding.toNat.toUInt8 = padding :=
        UInt8.toNat.inj (toNat_toUInt8 padding.toNat_lt)
      simp only [encode, hcontent, hpadding, hl1, hl0, hpad, List.cons_append, List.nil_append,
        List.append_assoc, List.cons.injEq, true_and]
      rw [← List.drop_drop, List.take_append_drop, List.take_append_drop]
  | [], h | [_], h | [_, _], h | [_, _, _], h | [_, _, _, _], h | [_, _, _, _, _], h
  | [_, _, _, _, _, _], h | [_, _, _, _, _, _, _], h => cases h

end Record

/-- **The format of records.** -/
def recordFormat : Framing.Format UInt8 Record where
  encode := Record.encode
  cut := Record.cut
  cut_encode := Record.cut_encode
  eq_of_cut := Record.eq_of_cut
  encode_ne_nil _ := List.cons_ne_nil _ _

end FastCgi
