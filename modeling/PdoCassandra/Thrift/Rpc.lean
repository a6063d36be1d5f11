import PdoCassandra.Foundation.Pipeline
import PdoCassandra.Foundation.Rpc
import PdoCassandra.Thrift.Client
import PdoCassandra.Thrift.Records

/-!
# The methods of `Cassandra.cpp` on the wire

The client and the processor of the five calls that the driver makes.  A result is
a record with a slot for the value and one for each exception that the method
declares.
-/

namespace PdoCassandra.Thrift.Rpc

open PdoCassandra.Foundation.CString
open PdoCassandra.Foundation.Wire
open PdoCassandra.Foundation.Rpc
open PdoCassandra.Thrift.Records

/-! ## Arguments and results -/

section Tables

variable (P : Protocol)

structure LoginArgs where
  authRequest : AuthenticationRequest := {}

namespace LoginArgs

def record : Record P LoginArgs where
  fields :=
    [.always 1 (AuthenticationRequest.record P).codec
      ⟨authRequest, fun authRequest r => { r with authRequest }, fun _ => rfl⟩]
  nodup := List.pairwise_singleton _ _
  apart := List.pairwise_singleton _ _

end LoginArgs

structure LoginResult where
  authnx : Slot AuthenticationException := .unset {}
  authzx : Slot AuthorizationException := .unset {}
  deriving DecidableEq

namespace LoginResult

def fields : List (Field P LoginResult) :=
  [.slot 1 (WhyException.record P).codec
     ⟨authnx, fun authnx r => { r with authnx }, fun _ => rfl⟩,
   .slot 2 (WhyException.record P).codec
     ⟨authzx, fun authzx r => { r with authzx }, fun _ => rfl⟩]

theorem fields_nodup : ((fields P).map Field.id).Nodup := by
  change ([1, 2] : List Int16).Nodup
  decide

theorem fields_apart : (fields P).Pairwise Field.Apart :=
  List.pairwise_pair.mpr fun _ _ _ => rfl

def record : Record P LoginResult := ⟨fields P, fields_nodup P, fields_apart P⟩

end LoginResult

/-- The arguments of `set_keyspace` and of `describe_keyspace`. -/
structure KeyspaceArgs where
  keyspace : Bytes := []
  deriving DecidableEq

namespace KeyspaceArgs

def record : Record P KeyspaceArgs where
  fields :=
    [.always 1 (.string P) ⟨keyspace, fun keyspace r => { r with keyspace }, fun _ => rfl⟩]
  nodup := List.pairwise_singleton _ _
  apart := List.pairwise_singleton _ _

end KeyspaceArgs

structure SetKeyspaceResult where
  ire : Slot InvalidRequestException := .unset {}
  deriving DecidableEq

namespace SetKeyspaceResult

def record : Record P SetKeyspaceResult where
  fields :=
    [.slot 1 (WhyException.record P).codec
      ⟨ire, fun ire r => { r with ire }, fun _ => rfl⟩]
  nodup := List.pairwise_singleton _ _
  apart := List.pairwise_singleton _ _

end SetKeyspaceResult

structure DescribeKeyspaceResult where
  success : Slot Records.KsDef := .unset {}
  nfe : Slot NotFoundException := .unset {}
  ire : Slot InvalidRequestException := .unset {}

namespace DescribeKeyspaceResult

def fields : List (Field P DescribeKeyspaceResult) :=
  [.slot 0 (Records.KsDef.record P).codec
     ⟨success, fun success r => { r with success }, fun _ => rfl⟩,
   .slot 1 (EmptyException.record P).codec
     ⟨nfe, fun nfe r => { r with nfe }, fun _ => rfl⟩,
   .slot 2 (WhyException.record P).codec
     ⟨ire, fun ire r => { r with ire }, fun _ => rfl⟩]

theorem fields_nodup : ((fields P).map Field.id).Nodup := by
  change ([0, 1, 2] : List Int16).Nodup
  decide

theorem fields_apart : (fields P).Pairwise Field.Apart := by
  simp only [fields, List.pairwise_cons, List.forall_mem_cons, List.not_mem_nil,
    false_imp_iff, implies_true, and_true, List.Pairwise.nil]
  and_intros
  all_goals
    intro value other object
    rfl

def record : Record P DescribeKeyspaceResult := ⟨fields P, fields_nodup P, fields_apart P⟩

end DescribeKeyspaceResult

structure DescribeVersionArgs where
  deriving DecidableEq

namespace DescribeVersionArgs

def fields : List (Field P DescribeVersionArgs) := []

theorem fields_nodup : ((fields P).map Field.id).Nodup := List.Pairwise.nil

theorem fields_apart : (fields P).Pairwise Field.Apart := List.Pairwise.nil

def record : Record P DescribeVersionArgs := ⟨fields P, fields_nodup P, fields_apart P⟩

end DescribeVersionArgs

structure DescribeVersionResult where
  success : Slot Bytes := .unset []
  deriving DecidableEq

namespace DescribeVersionResult

def record : Record P DescribeVersionResult where
  fields :=
    [.slot 0 (.string P) ⟨success, fun success r => { r with success }, fun _ => rfl⟩]
  nodup := List.pairwise_singleton _ _
  apart := List.pairwise_singleton _ _

end DescribeVersionResult

structure ExecuteCqlQueryArgs where
  query : Bytes := []
  compression : Int32 := 0
  deriving DecidableEq

namespace ExecuteCqlQueryArgs

def fields : List (Field P ExecuteCqlQueryArgs) :=
  [.always 1 (.string P) ⟨query, fun query r => { r with query }, fun _ => rfl⟩,
   .always 2 (.i32 P) ⟨compression, fun compression r => { r with compression }, fun _ => rfl⟩]

theorem fields_nodup : ((fields P).map Field.id).Nodup := by
  change ([1, 2] : List Int16).Nodup
  decide

theorem fields_apart : (fields P).Pairwise Field.Apart :=
  List.pairwise_pair.mpr fun _ _ _ => rfl

def record : Record P ExecuteCqlQueryArgs := ⟨fields P, fields_nodup P, fields_apart P⟩

end ExecuteCqlQueryArgs

structure ExecuteCqlQueryResult where
  success : Slot Records.CqlResult := .unset {}
  ire : Slot InvalidRequestException := .unset {}
  ue : Slot UnavailableException := .unset {}
  te : Slot TimedOutException := .unset {}
  sde : Slot SchemaDisagreementException := .unset {}
  deriving DecidableEq

namespace ExecuteCqlQueryResult

def fields : List (Field P ExecuteCqlQueryResult) :=
  [.slot 0 (Records.CqlResult.record P).codec
     ⟨success, fun success r => { r with success }, fun _ => rfl⟩,
   .slot 1 (WhyException.record P).codec
     ⟨ire, fun ire r => { r with ire }, fun _ => rfl⟩,
   .slot 2 (EmptyException.record P).codec ⟨ue, fun ue r => { r with ue }, fun _ => rfl⟩,
   .slot 3 (EmptyException.record P).codec ⟨te, fun te r => { r with te }, fun _ => rfl⟩,
   .slot 4 (EmptyException.record P).codec ⟨sde, fun sde r => { r with sde }, fun _ => rfl⟩]

theorem fields_nodup : ((fields P).map Field.id).Nodup := by
  change ([0, 1, 2, 3, 4] : List Int16).Nodup
  decide

theorem fields_apart : (fields P).Pairwise Field.Apart := by
  simp only [fields, List.pairwise_cons, List.forall_mem_cons, List.not_mem_nil,
    false_imp_iff, implies_true, and_true, List.Pairwise.nil]
  and_intros
  all_goals
    intro value other object
    rfl

def record : Record P ExecuteCqlQueryResult := ⟨fields P, fields_nodup P, fields_apart P⟩

end ExecuteCqlQueryResult

end Tables

/-! ## The methods -/

section Methods

variable (R : Runtime)

def login : Method R LoginArgs LoginResult where
  name := bytesOf "login"
  args := LoginArgs.record R.toProtocol
  result := LoginResult.record R.toProtocol
  freshArgs := {}
  freshResult := {}
  name_fits := by decide
  optional := by simp [LoginResult.record, LoginResult.fields, Field.slot]

def setKeyspace : Method R KeyspaceArgs SetKeyspaceResult where
  name := bytesOf "set_keyspace"
  args := KeyspaceArgs.record R.toProtocol
  result := SetKeyspaceResult.record R.toProtocol
  freshArgs := {}
  freshResult := {}
  name_fits := by decide
  optional := by simp [SetKeyspaceResult.record, Field.slot]

def describeKeyspace : Method R KeyspaceArgs DescribeKeyspaceResult where
  name := bytesOf "describe_keyspace"
  args := KeyspaceArgs.record R.toProtocol
  result := DescribeKeyspaceResult.record R.toProtocol
  freshArgs := {}
  freshResult := {}
  name_fits := by decide
  optional := by simp [DescribeKeyspaceResult.record, DescribeKeyspaceResult.fields, Field.slot]

def describeVersion : Method R DescribeVersionArgs DescribeVersionResult where
  name := bytesOf "describe_version"
  args := DescribeVersionArgs.record R.toProtocol
  result := DescribeVersionResult.record R.toProtocol
  freshArgs := {}
  freshResult := {}
  name_fits := by decide
  optional := by simp [DescribeVersionResult.record, Field.slot]

def executeCqlQuery : Method R ExecuteCqlQueryArgs ExecuteCqlQueryResult where
  name := bytesOf "execute_cql_query"
  args := ExecuteCqlQueryArgs.record R.toProtocol
  result := ExecuteCqlQueryResult.record R.toProtocol
  freshArgs := {}
  freshResult := {}
  name_fits := by decide
  optional := by simp [ExecuteCqlQueryResult.record, ExecuteCqlQueryResult.fields, Field.slot]

end Methods

/-! ## The client's outcome -/

section Client

variable (R : Runtime)

/-- The tests of a `recv_` function behind the read of its result. -/
def outcomeOf {Result Value : Type} (accept : Result → Except TException Value) :
    Reply Result → Except TException Value
  | .result result => accept result
  | .exception e => .error (.application (R.what e))

def acceptLogin (result : LoginResult) : Except TException Unit :=
  if result.authnx.isset then .error (.authentication result.authnx.value.why)
  else if result.authzx.isset then .error (.authorization result.authzx.value.why)
  else .ok ()

def acceptSetKeyspace (result : SetKeyspaceResult) : Except TException Unit :=
  if result.ire.isset then .error (.invalidRequest result.ire.value.why)
  else .ok ()

def acceptDescribeKeyspace (result : DescribeKeyspaceResult) :
    Except TException Records.KsDef :=
  if result.success.isset then .ok result.success.value
  else if result.nfe.isset then .error .notFound
  else if result.ire.isset then .error (.invalidRequest result.ire.value.why)
  else .error (missingResult "describe_keyspace")

def acceptDescribeVersion (result : DescribeVersionResult) : Except TException Bytes :=
  if result.success.isset then .ok result.success.value
  else .error (missingResult "describe_version")

def acceptExecuteCqlQuery (result : ExecuteCqlQueryResult) :
    Except TException Records.CqlResult :=
  if result.success.isset then .ok result.success.value
  else if result.ire.isset then .error (.invalidRequest result.ire.value.why)
  else if result.ue.isset then .error .unavailable
  else if result.te.isset then .error .timedOut
  else if result.sde.isset then .error .schemaDisagreement
  else .error (missingResult "execute_cql_query")

/-! ## The processor's handlers -/

/-- The object behind `iface_`; an exception that a method does not declare has a text. -/
structure Iface (Server : Type) where
  login : AuthenticationRequest → Server → Except TException Unit × Server
  setKeyspace : Bytes → Server → Except TException Unit × Server
  describeKeyspace : Bytes → Server → Except TException Records.KsDef × Server
  describeVersion : Server → Except TException Bytes × Server
  executeCqlQuery : Bytes → Int32 → Server → Except TException Records.CqlResult × Server
  what : TException → Bytes

variable {Server : Type} (iface : Iface Server)

/-- The last handler of a `process_` function. -/
def undeclared {Result : Type} (e : TException) : Reply Result :=
  .exception ⟨ApplicationException.unknown, iface.what e⟩

def catchLogin : Except TException Unit → Reply LoginResult
  | .ok () => .result {}
  | .error (.authentication why) => .result { authnx := ⟨⟨why⟩, true⟩ }
  | .error (.authorization why) => .result { authzx := ⟨⟨why⟩, true⟩ }
  | .error e => undeclared iface e

def catchSetKeyspace : Except TException Unit → Reply SetKeyspaceResult
  | .ok () => .result {}
  | .error (.invalidRequest why) => .result { ire := ⟨⟨why⟩, true⟩ }
  | .error e => undeclared iface e

def catchDescribeKeyspace :
    Except TException Records.KsDef → Reply DescribeKeyspaceResult
  | .ok ksDef => .result { success := ⟨ksDef, true⟩ }
  | .error .notFound => .result { nfe := ⟨{}, true⟩ }
  | .error (.invalidRequest why) => .result { ire := ⟨⟨why⟩, true⟩ }
  | .error e => undeclared iface e

def catchDescribeVersion : Except TException Bytes → Reply DescribeVersionResult
  | .ok version => .result { success := ⟨version, true⟩ }
  | .error e => undeclared iface e

def catchExecuteCqlQuery :
    Except TException Records.CqlResult → Reply ExecuteCqlQueryResult
  | .ok value => .result { success := ⟨value, true⟩ }
  | .error (.invalidRequest why) => .result { ire := ⟨⟨why⟩, true⟩ }
  | .error .unavailable => .result { ue := ⟨{}, true⟩ }
  | .error .timedOut => .result { te := ⟨{}, true⟩ }
  | .error .schemaDisagreement => .result { sde := ⟨{}, true⟩ }
  | .error e => undeclared iface e

def handleLogin (args : LoginArgs) (server : Server) : Reply LoginResult × Server :=
  let outcome := iface.login args.authRequest server
  (catchLogin iface outcome.1, outcome.2)

def handleSetKeyspace (args : KeyspaceArgs) (server : Server) :
    Reply SetKeyspaceResult × Server :=
  let outcome := iface.setKeyspace args.keyspace server
  (catchSetKeyspace iface outcome.1, outcome.2)

def handleDescribeKeyspace (args : KeyspaceArgs) (server : Server) :
    Reply DescribeKeyspaceResult × Server :=
  let outcome := iface.describeKeyspace args.keyspace server
  (catchDescribeKeyspace iface outcome.1, outcome.2)

def handleDescribeVersion (_ : DescribeVersionArgs) (server : Server) :
    Reply DescribeVersionResult × Server :=
  let outcome := iface.describeVersion server
  (catchDescribeVersion iface outcome.1, outcome.2)

def handleExecuteCqlQuery (args : ExecuteCqlQueryArgs) (server : Server) :
    Reply ExecuteCqlQueryResult × Server :=
  let outcome := iface.executeCqlQuery args.query args.compression server
  (catchExecuteCqlQuery iface outcome.1, outcome.2)

/-- `processMap_`; `others` stands for the methods that the driver does not call. -/
def processMap (others : ProcessMap Server) : ProcessMap Server := fun name =>
  if name = bytesOf "login" then some ((login R).process (handleLogin iface))
  else if name = bytesOf "set_keyspace" then
    some ((setKeyspace R).process (handleSetKeyspace iface))
  else if name = bytesOf "describe_keyspace" then
    some ((describeKeyspace R).process (handleDescribeKeyspace iface))
  else if name = bytesOf "describe_version" then
    some ((describeVersion R).process (handleDescribeVersion iface))
  else if name = bytesOf "execute_cql_query" then
    some ((executeCqlQuery R).process (handleExecuteCqlQuery iface))
  else others name

end Client

end PdoCassandra.Thrift.Rpc
