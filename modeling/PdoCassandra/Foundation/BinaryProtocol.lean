import PdoCassandra.Foundation.BigEndian
import PdoCassandra.Foundation.Skip

/-!
# The binary protocol

Numbers are big-endian in the width of their type, a text stands behind its
length, a type and a message type are one byte each, and a message begins with the
version of the protocol.  A message without a version is read as well.
-/

namespace PdoCassandra.Foundation.BinaryProtocol

open PdoCassandra.Foundation.CString
open PdoCassandra.Foundation.Wire

/-! ## Bytes and numbers -/

/-- Take a number of bytes. -/
def readBytes (count : Nat) : Reader Bytes := fun wire =>
  if count ≤ wire.length then .ok (wire.take count, wire.drop count)
  else .error (.transport (bytesOf "No more data to read."))

theorem readBytes_reads (text : Bytes) : Reads (readBytes text.length) text text := by
  intro rest
  have hcount : text.length ≤ (text ++ rest).length := by
    rw [List.length_append]
    exact Nat.le_add_right _ _
  rw [readBytes, if_pos hcount, List.take_left, List.drop_left]

theorem readBytes_consumes (count : Nat) : Consumes (readBytes count) := by
  intro wire text rest hread
  unfold readBytes at hread
  split at hread
  case isTrue hcount =>
    cases hread
    have htaken := readBytes_reads (wire.take count)
    rw [List.length_take, Nat.min_eq_left hcount] at htaken
    exact ⟨wire.take count, (List.take_append_drop count wire).symm, htaken⟩
  case isFalse => cases hread

/-- Read a number of a width. -/
def readNat (width : Nat) : Reader Nat := do
  let text ← readBytes width
  pure (BigEndian.value text)

theorem readNat_reads {width n : Nat} (hn : n < 256 ^ width) :
    Reads (readNat width) (BigEndian.bytes width n) n := by
  have hread := readBytes_reads (BigEndian.bytes width n)
  rw [BigEndian.length_bytes] at hread
  have hvalue := hread.bind_pure BigEndian.value
  rwa [BigEndian.value_bytes, Nat.mod_eq_of_lt hn] at hvalue

theorem readNat_consumes (width : Nat) : Consumes (readNat width) :=
  (readBytes_consumes width).bind fun _ => Consumes.pure _

/-- Read a byte, to be taken for a type. -/
def readByte : Reader UInt8 := do
  let n ← readNat 1
  pure (UInt8.ofNat n)

theorem readByte_reads (byte : UInt8) : Reads readByte [byte] byte := by
  have hbyte : BigEndian.bytes 1 byte.toNat = [byte] := by simp [BigEndian.bytes]
  have hlt : byte.toNat < 256 ^ 1 := byte.toNat_lt
  have hread := (readNat_reads hlt).bind_pure UInt8.ofNat
  rwa [hbyte, UInt8.ofNat_toNat] at hread

theorem readByte_consumes : Consumes readByte :=
  (readNat_consumes 1).bind fun _ => Consumes.pure _

/-! ## Types -/

def typeCode : TType → UInt8
  | .stop => 0
  | .bool => 2
  | .byte => 3
  | .double => 4
  | .i16 => 6
  | .i32 => 8
  | .i64 => 10
  | .string => 11
  | .struct => 12
  | .map => 13
  | .set => 14
  | .list => 15
  | .other code => code

def typeOfCode (code : UInt8) : TType :=
  match code.toNat with
  | 0 => .stop
  | 2 => .bool
  | 3 => .byte
  | 4 => .double
  | 6 => .i16
  | 8 => .i32
  | 10 => .i64
  | 11 => .string
  | 12 => .struct
  | 13 => .map
  | 14 => .set
  | 15 => .list
  | _ => .other code

theorem typeOfCode_typeCode {type : TType} (hknown : type.known = true) :
    typeOfCode (typeCode type) = type := by
  cases type <;> first | rfl | cases hknown

def messageCode : MessageType → UInt8
  | .call => 1
  | .reply => 2
  | .exception => 3
  | .oneway => 4
  | .other code => code

def messageOfCode (code : UInt8) : MessageType :=
  match code.toNat with
  | 1 => .call
  | 2 => .reply
  | 3 => .exception
  | 4 => .oneway
  | _ => .other code

theorem messageOfCode_messageCode {type : MessageType} (hknown : type.known = true) :
    messageOfCode (messageCode type) = type := by
  cases type <;> first | rfl | cases hknown

/-! ## Numbers of a fixed width -/

def readType : Reader TType := do
  let code ← readByte
  pure (typeOfCode code)

theorem readType_reads {type : TType} (hknown : type.known = true) :
    Reads readType [typeCode type] type := by
  have hread := (readByte_reads (typeCode type)).bind_pure typeOfCode
  rwa [typeOfCode_typeCode hknown] at hread

theorem readType_consumes : Consumes readType :=
  readByte_consumes.bind fun _ => Consumes.pure _

def readI16 : Reader Int16 := do
  let n ← readNat 2
  pure (UInt16.ofNat n).toInt16

theorem readI16_reads (n : Int16) :
    Reads readI16 (BigEndian.bytes 2 n.toUInt16.toNat) n := by
  have hlt : n.toUInt16.toNat < 256 ^ 2 := n.toUInt16.toNat_lt
  have hread := (readNat_reads hlt).bind_pure fun n => (UInt16.ofNat n).toInt16
  rwa [UInt16.ofNat_toNat, Int16.toInt16_toUInt16] at hread

theorem readI16_consumes : Consumes readI16 :=
  (readNat_consumes 2).bind fun _ => Consumes.pure _

def readI32 : Reader Int32 := do
  let n ← readNat 4
  pure (UInt32.ofNat n).toInt32

theorem readI32_reads (n : Int32) :
    Reads readI32 (BigEndian.bytes 4 n.toUInt32.toNat) n := by
  have hlt : n.toUInt32.toNat < 256 ^ 4 := n.toUInt32.toNat_lt
  have hread := (readNat_reads hlt).bind_pure fun n => (UInt32.ofNat n).toInt32
  rwa [UInt32.ofNat_toNat, Int32.toInt32_toUInt32] at hread

theorem readI32_consumes : Consumes readI32 :=
  (readNat_consumes 4).bind fun _ => Consumes.pure _

def readI64 : Reader Int64 := do
  let n ← readNat 8
  pure (UInt64.ofNat n).toInt64

theorem readI64_reads (n : Int64) :
    Reads readI64 (BigEndian.bytes 8 n.toUInt64.toNat) n := by
  have hlt : n.toUInt64.toNat < 256 ^ 8 := n.toUInt64.toNat_lt
  have hread := (readNat_reads hlt).bind_pure fun n => (UInt64.ofNat n).toInt64
  rwa [UInt64.ofNat_toNat, Int64.toInt64_toUInt64] at hread

theorem readI64_consumes : Consumes readI64 :=
  (readNat_consumes 8).bind fun _ => Consumes.pure _

/-- The bits of a `double`. -/
def readDouble : Reader UInt64 := do
  let n ← readNat 8
  pure (UInt64.ofNat n)

theorem readDouble_reads (n : UInt64) :
    Reads readDouble (BigEndian.bytes 8 n.toNat) n := by
  have hlt : n.toNat < 256 ^ 8 := n.toNat_lt
  have hread := (readNat_reads hlt).bind_pure UInt64.ofNat
  rwa [UInt64.ofNat_toNat] at hread

theorem readDouble_consumes : Consumes readDouble :=
  (readNat_consumes 8).bind fun _ => Consumes.pure _

/-- A length is a signed number on the wire. -/
def toSize (n : Nat) : Reader UInt32 :=
  if n < Datum.sizeLimit then pure (UInt32.ofNat n)
  else throw (.protocol .negativeSize)

theorem toSize_consumes (n : Nat) : Consumes (toSize n) := by
  unfold toSize
  split
  case isTrue => exact Consumes.pure _
  case isFalse => exact Consumes.throw _

def readSize : Reader UInt32 := do
  let n ← readNat 4
  toSize n

theorem readSize_reads {size : UInt32} (hsize : size.toNat < Datum.sizeLimit) :
    Reads readSize (BigEndian.bytes 4 size.toNat) size := by
  have hlt : size.toNat < 256 ^ 4 := size.toNat_lt
  have hpure : Reads (toSize size.toNat) [] size := by
    rw [toSize, if_pos hsize, UInt32.ofNat_toNat]
    exact Reads.pure size
  exact (readNat_reads hlt).bind_nil hpure

theorem readSize_consumes : Consumes readSize :=
  (readNat_consumes 4).bind toSize_consumes

/-! ## Texts -/

def writeString (text : Bytes) : Bytes :=
  BigEndian.bytes 4 text.length ++ text

def readString : Reader Bytes := do
  let size ← readSize
  readBytes size.toNat

theorem readString_reads {text : Bytes} (htext : text.length < Datum.sizeLimit) :
    Reads readString (writeString text) text := by
  have hsize : (UInt32.ofNat text.length).toNat = text.length :=
    UInt32.toNat_ofNat_of_lt' (Nat.lt_trans htext (by decide))
  have hlength : Reads readSize (BigEndian.bytes 4 text.length)
      (UInt32.ofNat text.length) := by
    have hfits : (UInt32.ofNat text.length).toNat < Datum.sizeLimit := by rwa [hsize]
    have hread := readSize_reads hfits
    rwa [hsize] at hread
  refine hlength.bind ?_
  rw [hsize]
  exact readBytes_reads text

theorem readString_consumes : Consumes readString :=
  readSize_consumes.bind fun size => readBytes_consumes size.toNat

/-! ## The beginning of a compound value -/

def readFieldBegin : Reader (Option (TType × Int16)) := do
  let type ← readType
  if type = .stop then pure none
  else do
    let id ← readI16
    pure (some (type, id))

def writeFieldBegin : Option (TType × Int16) → Bytes
  | none => [typeCode .stop]
  | some (type, id) => [typeCode type] ++ BigEndian.bytes 2 id.toUInt16.toNat

theorem readFieldBegin_reads {field : Option (TType × Int16)}
    (hfits : Datum.Fits .fieldBegin field) :
    Reads readFieldBegin (writeFieldBegin field) field := by
  cases field with
  | none =>
      intro rest
      have hread : readType ([typeCode .stop] ++ rest) = .ok (.stop, rest) := rfl
      rw [readFieldBegin, writeFieldBegin, bind_ok hread]
      rfl
  | some field =>
      obtain ⟨type, id⟩ := field
      have hne : type ≠ .stop := by
        rintro rfl
        cases hfits
      refine (readType_reads hfits).bind ?_
      rw [if_neg hne]
      exact (readI16_reads id).bind_pure fun id => some (type, id)

theorem readFieldBegin_consumes : Consumes readFieldBegin := by
  refine readType_consumes.bind fun type => ?_
  split
  case isTrue => exact Consumes.pure _
  case isFalse => exact readI16_consumes.bind fun _ => Consumes.pure _

def readListBegin : Reader (TType × UInt32) := do
  let type ← readType
  let size ← readSize
  pure (type, size)

def writeListBegin : TType × UInt32 → Bytes
  | (type, size) => [typeCode type] ++ BigEndian.bytes 4 size.toNat

theorem readListBegin_reads {type : TType} {size : UInt32} (htype : type.known = true)
    (hsize : size.toNat < Datum.sizeLimit) :
    Reads readListBegin (writeListBegin (type, size)) (type, size) :=
  (readType_reads htype).bind ((readSize_reads hsize).bind_pure fun size => (type, size))

theorem readListBegin_consumes : Consumes readListBegin :=
  readType_consumes.bind fun _ => readSize_consumes.bind fun _ => Consumes.pure _

def readMapBegin : Reader (TType × TType × UInt32) := do
  let key ← readType
  let value ← readType
  let size ← readSize
  pure (key, value, size)

def writeMapBegin : TType × TType × UInt32 → Bytes
  | (key, value, size) =>
      [typeCode key] ++ ([typeCode value] ++ BigEndian.bytes 4 size.toNat)

theorem readMapBegin_reads {key value : TType} {size : UInt32} (hkey : key.known = true)
    (hvalue : value.known = true) (hsize : size.toNat < Datum.sizeLimit) :
    Reads readMapBegin (writeMapBegin (key, value, size)) (key, value, size) :=
  (readType_reads hkey).bind <| (readType_reads hvalue).bind <|
    (readSize_reads hsize).bind_pure fun size => (key, value, size)

theorem readMapBegin_consumes : Consumes readMapBegin :=
  readType_consumes.bind fun _ => readType_consumes.bind fun _ =>
    readSize_consumes.bind fun _ => Consumes.pure _

/-! ## The beginning of a message -/

/-- The version, in the upper half of the first number of a message. -/
def version : Nat := 0x8001

/-- The rest of a message's beginning, behind its first number. -/
def readMessageRest (first : Nat) : Reader MessageHeader :=
  if first < Datum.sizeLimit then do
    -- a message without a version begins with the length of its name
    let name ← readBytes first
    let code ← readByte
    let seqid ← readI32
    pure ⟨name, messageOfCode code, seqid⟩
  else if first / 65536 = version then do
    let name ← readString
    let seqid ← readI32
    pure ⟨name, messageOfCode (UInt8.ofNat first), seqid⟩
  else throw (.protocol .badVersion)

def readMessageBegin : Reader MessageHeader := do
  let first ← readNat 4
  readMessageRest first

def writeMessageBegin (header : MessageHeader) : Bytes :=
  BigEndian.bytes 4 (version * 65536 + (messageCode header.type).toNat) ++
    (writeString header.name ++ BigEndian.bytes 4 header.seqid.toUInt32.toNat)

theorem readMessageBegin_reads {header : MessageHeader}
    (hname : header.name.length < Datum.sizeLimit) (htype : header.type.known = true) :
    Reads readMessageBegin (writeMessageBegin header) header := by
  obtain ⟨name, type, seqid⟩ := header
  have hcode := (messageCode type).toNat_lt
  have hfirst : version * 65536 + (messageCode type).toNat < 256 ^ 4 := by
    rw [version]
    omega
  have hlimit : ¬ version * 65536 + (messageCode type).toNat < Datum.sizeLimit := by
    rw [version, Datum.sizeLimit]
    omega
  have hversion : (version * 65536 + (messageCode type).toNat) / 65536 = version := by
    omega
  have hlow : UInt8.ofNat (version * 65536 + (messageCode type).toNat) =
      messageCode type := by
    apply UInt8.toNat_inj.mp
    rw [UInt8.toNat_ofNat', version]
    omega
  refine (readNat_reads hfirst).bind ?_
  rw [readMessageRest, if_neg hlimit, if_pos hversion, hlow, messageOfCode_messageCode htype]
  exact (readString_reads hname).bind
    ((readI32_reads seqid).bind_pure (MessageHeader.mk name type))

theorem readMessageBegin_consumes : Consumes readMessageBegin := by
  refine (readNat_consumes 4).bind fun first => ?_
  unfold readMessageRest
  split
  case isTrue =>
    exact (readBytes_consumes first).bind fun _ => readByte_consumes.bind fun _ =>
      readI32_consumes.bind fun _ => Consumes.pure _
  case isFalse =>
    split
    case isTrue =>
      exact readString_consumes.bind fun _ => readI32_consumes.bind fun _ => Consumes.pure _
    case isFalse => exact Consumes.throw _

/-! ## The encoding -/

def write : (datum : Datum) → datum.Value → Bytes
  | .fieldBegin, field => writeFieldBegin field
  | .bool, value => [if value then 1 else 0]
  | .byte, n => [n.toUInt8]
  | .double, n => BigEndian.bytes 8 n.toNat
  | .i16, n => BigEndian.bytes 2 n.toUInt16.toNat
  | .i32, n => BigEndian.bytes 4 n.toUInt32.toNat
  | .i64, n => BigEndian.bytes 8 n.toUInt64.toNat
  | .string, text => writeString text
  | .listBegin, list | .setBegin, list => writeListBegin list
  | .mapBegin, map => writeMapBegin map
  | .messageBegin, header => writeMessageBegin header

def read : (datum : Datum) → Reader datum.Value
  | .fieldBegin => readFieldBegin
  | .bool => do
      let byte ← readByte
      pure (byte != 0)
  | .byte => do
      let byte ← readByte
      pure byte.toInt8
  | .double => readDouble
  | .i16 => readI16
  | .i32 => readI32
  | .i64 => readI64
  | .string => readString
  | .listBegin | .setBegin => readListBegin
  | .mapBegin => readMapBegin
  | .messageBegin => readMessageBegin

theorem read_write {datum : Datum} {value : datum.Value} (hfits : datum.Fits value) :
    Reads (read datum) (write datum value) value := by
  cases datum with
  | fieldBegin => exact readFieldBegin_reads hfits
  | bool =>
      cases value with
      | false => exact (readByte_reads 0).bind_pure fun byte => byte != 0
      | true => exact (readByte_reads 1).bind_pure fun byte => byte != 0
  | byte =>
      have hread := (readByte_reads value.toUInt8).bind_pure UInt8.toInt8
      rwa [Int8.toInt8_toUInt8] at hread
  | double => exact readDouble_reads value
  | i16 => exact readI16_reads value
  | i32 => exact readI32_reads value
  | i64 => exact readI64_reads value
  | string => exact readString_reads hfits
  | listBegin | setBegin => exact readListBegin_reads hfits.1 hfits.2
  | mapBegin => exact readMapBegin_reads hfits.1 hfits.2.1 hfits.2.2
  | messageBegin => exact readMessageBegin_reads hfits.1 hfits.2

theorem read_consumes (datum : Datum) : Consumes (read datum) := by
  cases datum with
  | fieldBegin => exact readFieldBegin_consumes
  | bool | byte => exact readByte_consumes.bind fun _ => Consumes.pure _
  | double => exact readDouble_consumes
  | i16 => exact readI16_consumes
  | i32 => exact readI32_consumes
  | i64 => exact readI64_consumes
  | string => exact readString_consumes
  | listBegin | setBegin => exact readListBegin_consumes
  | mapBegin => exact readMapBegin_consumes
  | messageBegin => exact readMessageBegin_consumes

theorem read_progresses (datum : Datum) : Progresses (read datum) := by
  refine Progresses.of_nil (read_consumes datum) fun outcome hread => ?_
  cases datum <;> cases hread

def encoding : Encoding where
  write := write
  read := read
  read_write := read_write
  read_progresses := read_progresses
  read_consumes := read_consumes

def protocol : Protocol := encoding.protocol

end PdoCassandra.Foundation.BinaryProtocol
