import PdoCassandra.Foundation.CString

/-!
# Tagged wire protocols

A protocol writes a value as a sequence of data, each under its own encoding,
and reads the data back in the order in which they were written.  Compound
values carry the types of their parts, so that a value of any type can be passed
over by a reader that does not know what it means.  A read that succeeds takes the
first bytes of a wire, whatever stands behind them.
-/

namespace PdoCassandra.Foundation.Wire

open PdoCassandra.Foundation.CString

/-! ## Types and data -/

/-- The type of a value on the wire; a type is read as a byte of any content. -/
inductive TType where
  | stop
  | bool
  | byte
  | double
  | i16
  | i32
  | i64
  | string
  | struct
  | map
  | set
  | list
  | other (code : UInt8)
  deriving DecidableEq

namespace TType

/-- The types that a value can have. -/
def known : TType → Bool
  | .stop | .other _ => false
  | _ => true

end TType

inductive MessageType where
  | call
  | reply
  | exception
  | oneway
  | other (code : UInt8)
  deriving DecidableEq

namespace MessageType

def known : MessageType → Bool
  | .other _ => false
  | _ => true

end MessageType

structure MessageHeader where
  name : Bytes
  type : MessageType
  seqid : Int32
  deriving DecidableEq

/-- What a protocol has one function to write, and one to read. -/
inductive Datum where
  | fieldBegin
  | bool
  | byte
  | double
  | i16
  | i32
  | i64
  | string
  | listBegin
  | setBegin
  | mapBegin
  | messageBegin
  deriving DecidableEq

namespace Datum

/-- What the function takes or returns; a field is its type and number, or the stop. -/
abbrev Value : Datum → Type
  | .fieldBegin => Option (TType × Int16)
  | .bool => Bool
  | .byte => Int8
  | .double => UInt64
  | .i16 => Int16
  | .i32 => Int32
  | .i64 => Int64
  | .string => Bytes
  | .listBegin | .setBegin => TType × UInt32
  | .mapBegin => TType × TType × UInt32
  | .messageBegin => MessageHeader

/-- The lengths that a signed length field holds. -/
def sizeLimit : Nat := 2147483648

theorem zero_lt_sizeLimit : 0 < sizeLimit := by decide

theorem one_lt_sizeLimit : 1 < sizeLimit := by decide

/-- The values that are read back as they were written. -/
def Fits : (datum : Datum) → datum.Value → Prop
  | .fieldBegin, none => True
  | .fieldBegin, some (type, _) => type.known = true
  | .string, text => text.length < sizeLimit
  | .listBegin, (type, size) | .setBegin, (type, size) =>
      type.known = true ∧ size.toNat < sizeLimit
  | .mapBegin, (key, value, size) =>
      key.known = true ∧ value.known = true ∧ size.toNat < sizeLimit
  | .messageBegin, header =>
      header.name.length < sizeLimit ∧ header.type.known = true
  | .bool, _ | .byte, _ | .double, _ | .i16, _ | .i32, _ | .i64, _ => True

/-- The type of the values that are a single datum. -/
def type : Datum → Option TType
  | .bool => some .bool
  | .byte => some .byte
  | .double => some .double
  | .i16 => some .i16
  | .i32 => some .i32
  | .i64 => some .i64
  | .string => some .string
  | .fieldBegin | .listBegin | .setBegin | .mapBegin | .messageBegin => none

/-- The datum that is a value of a type, if it is only one. -/
def ofType : TType → Option Datum
  | .bool => some .bool
  | .byte => some .byte
  | .double => some .double
  | .i16 => some .i16
  | .i32 => some .i32
  | .i64 => some .i64
  | .string => some .string
  | .stop | .struct | .map | .set | .list | .other _ => none

theorem ofType_of_type {datum : Datum} {type : TType} (htype : datum.type = some type) :
    ofType type = some datum := by
  cases datum <;> cases htype <;> rfl

theorem known_of_type {datum : Datum} {type : TType} (htype : datum.type = some type) :
    type.known = true := by
  cases datum <;> cases htype <;> rfl

end Datum

/-! ## Readers -/

inductive ProtocolError where
  | unknown
  | invalidData
  | negativeSize
  | sizeLimit
  | badVersion
  deriving DecidableEq

/-- What a read raises. -/
inductive Failure where
  /-- The transport has no more bytes, or fails. -/
  | transport (what : Bytes)
  | protocol (error : ProtocolError)
  deriving DecidableEq

/-- A function that takes what it reads off the wire. -/
abbrev Reader (α : Type) := StateT Bytes (Except Failure) α

section Rules

variable {α β : Type} {reader : Reader α} {next : α → Reader β}

theorem bind_ok {wire rest : Bytes} {value : α} (hread : reader wire = .ok (value, rest)) :
    (reader >>= next) wire = next value rest := by
  change (reader wire >>= fun result => next result.1 result.2) = _
  rw [hread]
  rfl

theorem bind_error {wire : Bytes} {failure : Failure}
    (hread : reader wire = .error failure) :
    (reader >>= next) wire = .error failure := by
  change (reader wire >>= fun result => next result.1 result.2) = _
  rw [hread]
  rfl

/-- What follows a read depends on what it gives alone. -/
theorem bind_congr {other : Reader α} {wire rest : Bytes} (hread : reader wire = other rest) :
    (reader >>= next) wire = (other >>= next) rest := by
  change (reader wire >>= fun result => next result.1 result.2) = _
  rw [hread]
  rfl

/-- `reader` takes `wire`, whatever follows it, and returns `value`. -/
def Reads (reader : Reader α) (wire : Bytes) (value : α) : Prop :=
  ∀ rest, reader (wire ++ rest) = .ok (value, rest)

/-- `reader` raises `failure` on `wire`, whatever follows it. -/
def Fails (reader : Reader α) (wire : Bytes) (failure : Failure) : Prop :=
  ∀ rest, reader (wire ++ rest) = .error failure

namespace Reads

theorem pure (value : α) : Reads (Pure.pure value) [] value := fun _ => rfl

theorem bind {first second : Bytes} {value : α} {result : β}
    (hfirst : Reads reader first value) (hsecond : Reads (next value) second result) :
    Reads (reader >>= next) (first ++ second) result := by
  intro rest
  rw [List.append_assoc, bind_ok (hfirst (second ++ rest))]
  exact hsecond rest

/-- What is behind a read may take nothing. -/
theorem bind_nil {wire : Bytes} {value : α} {result : β} (hread : Reads reader wire value)
    (hnext : Reads (next value) [] result) : Reads (reader >>= next) wire result := by
  have hbind := hread.bind hnext
  rwa [List.append_nil] at hbind

/-- The last read of a sequence. -/
theorem bind_pure {wire : Bytes} {value : α} (hread : Reads reader wire value)
    (result : α → β) :
    Reads (reader >>= fun value => Pure.pure (result value)) wire (result value) :=
  hread.bind_nil (Reads.pure (result value))

theorem run_nil {wire : Bytes} {value : α} (hread : Reads reader wire value) :
    reader wire = .ok (value, []) := by
  have hnil := hread []
  rwa [List.append_nil] at hnil

end Reads

namespace Fails

theorem bind {first second : Bytes} {value : α} {failure : Failure}
    (hfirst : Reads reader first value) (hsecond : Fails (next value) second failure) :
    Fails (reader >>= next) (first ++ second) failure := by
  intro rest
  rw [List.append_assoc, bind_ok (hfirst (second ++ rest))]
  exact hsecond rest

theorem throw (failure : Failure) : Fails (throw failure : Reader α) [] failure :=
  fun _ => rfl

theorem bind_nil {wire : Bytes} {value : α} {failure : Failure}
    (hread : Reads reader wire value) (hnext : Fails (next value) [] failure) :
    Fails (reader >>= next) wire failure := by
  have hbind := Fails.bind hread hnext
  rwa [List.append_nil] at hbind

theorem first {wire : Bytes} {failure : Failure} (hread : Fails reader wire failure) :
    Fails (reader >>= next) wire failure := by
  intro rest
  exact bind_error (hread rest)

end Fails

/-- What is read are the first bytes of the wire, whatever is behind them. -/
def ConsumesAt (reader : Reader α) (wire : Bytes) : Prop :=
  ∀ ⦃value rest⦄, reader wire = .ok (value, rest) →
    ∃ taken, wire = taken ++ rest ∧ Reads reader taken value

def Consumes (reader : Reader α) : Prop :=
  ∀ wire, ConsumesAt reader wire

theorem ConsumesAt.bind {wire : Bytes} (hreader : ConsumesAt reader wire)
    (hnext : ∀ value rest, reader wire = .ok (value, rest) → ConsumesAt (next value) rest) :
    ConsumesAt (reader >>= next) wire := by
  intro result rest hread
  cases hfirst : reader wire with
  | error failure =>
      rw [bind_error hfirst] at hread
      cases hread
  | ok outcome =>
      obtain ⟨value, middle⟩ := outcome
      rw [bind_ok hfirst] at hread
      obtain ⟨first, rfl, hfirstReads⟩ := hreader hfirst
      obtain ⟨second, rfl, hsecond⟩ := hnext value middle hfirst hread
      exact ⟨first ++ second, (List.append_assoc first second rest).symm,
        hfirstReads.bind hsecond⟩

namespace Consumes

theorem pure (value : α) : Consumes (Pure.pure value : Reader α) := by
  intro wire result rest hread
  cases hread
  exact ⟨[], rfl, Reads.pure value⟩

theorem throw (failure : Failure) : Consumes (throw failure : Reader α) := by
  intro wire result rest hread
  cases hread

theorem bind (hreader : Consumes reader) (hnext : ∀ value, Consumes (next value)) :
    Consumes (reader >>= next) :=
  fun wire => (hreader wire).bind fun value rest _ => hnext value rest

/-- A read never puts anything back. -/
theorem length_le (hreader : Consumes reader) {wire rest : Bytes} {value : α}
    (hread : reader wire = .ok (value, rest)) : rest.length ≤ wire.length := by
  obtain ⟨taken, rfl, -⟩ := hreader wire hread
  rw [List.length_append]
  exact Nat.le_add_left _ _

/-- What a read has of the beginning of a wire is what it has of the wire. -/
theorem agrees (hreader : Consumes reader) {wire missing rest : Bytes} {value : α}
    (hread : reader wire = .ok (value, rest)) :
    reader (wire ++ missing) = .ok (value, rest ++ missing) := by
  obtain ⟨taken, rfl, htaken⟩ := hreader wire hread
  rw [List.append_assoc]
  exact htaken (rest ++ missing)

end Consumes

/-- Nothing is read before the last byte of the wire is there. -/
def Awaits (reader : Reader α) (wire : Bytes) : Prop :=
  ∀ ⦃first missing⦄, wire = first ++ missing → missing ≠ [] →
    ∀ outcome, reader first ≠ .ok outcome

namespace Awaits

theorem of_reads (hreader : Consumes reader) {wire : Bytes} {value : α}
    (hreads : Reads reader wire value) : Awaits reader wire := by
  rintro first missing rfl hmissing ⟨result, rest⟩ hread
  have hwhole := hreads []
  rw [List.append_nil, hreader.agrees hread, Except.ok.injEq, Prod.mk.injEq] at hwhole
  exact hmissing (List.append_eq_nil_iff.mp hwhole.2).2

/-- It is enough that the last of two reads awaits its part. -/
theorem bind (hreader : Consumes reader) {first second : Bytes} {value : α}
    (hreads : Reads reader first value) (hnext : Awaits (next value) second) :
    Awaits (reader >>= next) (first ++ second) := by
  intro short missing hwire hmissing outcome hread
  cases hshort : reader short with
  | error failure =>
      rw [bind_error hshort] at hread
      cases hread
  | ok found =>
      obtain ⟨result, rest⟩ := found
      have hwhole := hreads second
      rw [hwire, hreader.agrees hshort, Except.ok.injEq, Prod.mk.injEq] at hwhole
      obtain ⟨rfl, hsecond⟩ := hwhole
      rw [bind_ok hshort] at hread
      exact hnext hsecond.symm hmissing outcome hread

/-- A read of what has arrived so far of a wire and of what is behind it. -/
theorem arrived {wire behind arrived underWay rest : Bytes} {value found : α}
    (hawaits : Awaits reader wire) (hreads : Reads reader wire value)
    (hwhole : arrived ++ underWay = wire ++ behind)
    (hread : reader arrived = .ok (found, rest)) :
    found = value ∧ arrived = wire ++ rest ∧ rest ++ underWay = behind := by
  have hthere : ∃ extra, arrived = wire ++ extra := by
    rcases List.append_eq_append_iff.mp hwhole with ⟨missing, hwire, -⟩ | ⟨extra, harrived, -⟩
    · by_cases hmissing : missing = []
      · exact ⟨[], by rw [hwire, hmissing, List.append_nil, List.append_nil]⟩
      · exact absurd hread (hawaits hwire hmissing _)
    · exact ⟨extra, harrived⟩
  obtain ⟨extra, rfl⟩ := hthere
  rw [hreads extra, Except.ok.injEq, Prod.mk.injEq] at hread
  obtain ⟨rfl, rfl⟩ := hread
  rw [List.append_assoc] at hwhole
  exact ⟨rfl, rfl, List.append_cancel_left hwhole⟩

end Awaits

/-- A read that succeeds takes at least one byte. -/
def Progresses (reader : Reader α) : Prop :=
  ∀ ⦃wire value rest⦄, reader wire = .ok (value, rest) → rest.length < wire.length

namespace Progresses

/-- It is enough that nothing is read of an empty wire. -/
theorem of_nil (hreader : Consumes reader) (hnil : ∀ outcome, reader [] ≠ .ok outcome) :
    Progresses reader := by
  intro wire value rest hread
  obtain ⟨taken, rfl, htaken⟩ := hreader wire hread
  cases taken with
  | nil => exact absurd htaken.run_nil (hnil _)
  | cons byte taken =>
      rw [List.length_append, List.length_cons]
      omega

/-- Nothing that begins with such a read is read of an empty wire. -/
theorem bind_nil_ne_ok (hreader : Progresses reader) (outcome : β × Bytes) :
    (reader >>= next) [] ≠ .ok outcome := by
  intro hread
  cases hfirst : reader [] with
  | error failure =>
      rw [bind_error hfirst] at hread
      cases hread
  | ok first => exact Nat.not_lt_zero _ (hreader hfirst)

end Progresses

end Rules

/-! ## Encodings -/

/-- The bytes of each datum. -/
structure Encoding where
  write : (datum : Datum) → datum.Value → Bytes
  read : (datum : Datum) → Reader datum.Value
  read_write : ∀ {datum} {value : datum.Value}, datum.Fits value →
    Reads (read datum) (write datum value) value
  read_progresses : ∀ datum, Progresses (read datum)
  read_consumes : ∀ datum, Consumes (read datum)

end PdoCassandra.Foundation.Wire
