import PdoCassandra.Foundation.CString

/-!
# The Thrift records of `cassandra_types.h`

Only the fields that the driver reads are kept.  Names and values are byte
strings of any content, as `std::string` is.
-/

namespace PdoCassandra.Thrift

open PdoCassandra.Foundation.CString

/-! ## Schema records -/

structure ColumnDef where
  name : Bytes
  validationClass : Bytes
  deriving DecidableEq

structure CfDef where
  name : Bytes
  comparatorType : Bytes := bytesOf "BytesType"
  columnMetadata : List ColumnDef := []
  defaultValidationClass : Bytes := []
  keyValidationClass : Bytes := []
  keyAlias : Bytes := []
  deriving DecidableEq

structure KsDef where
  name : Bytes
  cfDefs : List CfDef
  deriving DecidableEq

/-! ## Results -/

structure Column where
  name : Bytes
  value : Bytes
  deriving DecidableEq

structure CqlRow where
  columns : List Column
  deriving DecidableEq

/-- The enumeration of the interface, and any other number the wire can carry. -/
inductive CqlResultType where
  | rows
  | void
  | int
  | other (code : Int)
  deriving DecidableEq

structure CqlResult where
  type : CqlResultType
  rows : List CqlRow := []
  num : Int := 0
  deriving DecidableEq

/-! ## Exceptions -/

/-- What a client call can raise. -/
inductive TException where
  | invalidRequest (why : Bytes)
  | notFound
  | unavailable
  | timedOut
  | schemaDisagreement
  | authentication (why : Bytes)
  | authorization (why : Bytes)
  /-- `TApplicationException`. -/
  | application (what : Bytes)
  /-- `TTransportException`. -/
  | transport (what : Bytes)
  deriving DecidableEq

end PdoCassandra.Thrift
