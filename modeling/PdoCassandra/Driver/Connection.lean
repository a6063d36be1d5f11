import PdoCassandra.Driver.CqlParser
import PdoCassandra.Thrift.Client

/-!
# A handle and the server session behind it

The handle's two fields are read and written by every entry point of the driver.
The server side is reduced to what the driver can observe: the session's current
keyspace, the schema of each keyspace, and which queries it reads as a `USE`.  What
the server answers is not modelled: each entry point is given the messages that come
back for the client calls it makes, and it makes each of them at most once.
-/

namespace PdoCassandra.Driver

open PdoCassandra.Foundation.CString
open PdoCassandra.Driver.CqlParser
open PdoCassandra.Thrift

/-- The text of a query in memory. -/
abbrev Query := Terminated

/-! ## The server session -/

abbrev Schema := Bytes → Option KsDef

structure Server where
  /-- The session's current keyspace, empty for none. -/
  keyspace : Bytes
  schema : Schema
  /-- The keyspace of a query that the server reads as a `USE`, whatever its CQL parser is. -/
  cqlUse : Bytes → Option Bytes

/-- A server without schemas, which reads no query as a `USE`. -/
def bareServer : Server where
  keyspace := []
  schema _ := none
  cqlUse _ := none

/-! ## The client calls of one entry -/

structure Replies where
  /-- The text of the exception, if `transport->open()` raises one. -/
  openTransport : Option Bytes := none
  login : Incoming LoginResult := .message {}
  setKeyspace : Incoming SetKeyspaceResult := .message {}
  describeKeyspace : Incoming DescribeKeyspaceResult := .message {}
  describeVersion : Incoming DescribeVersionResult := .message {}
  executeCqlQuery : Incoming ExecuteCqlQueryResult := .message {}
  /-- What a query that is sent does to the schemas, whatever comes back. -/
  alter : Schema → Schema := id

/-- `set_keyspace` moves the session when it returns. -/
def Server.setKeyspace (server : Server) (replies : Replies) (keyspace : Bytes) :
    Except TException Unit × Server :=
  match recvSetKeyspace replies.setKeyspace with
  | .ok () => (.ok (), { server with keyspace := keyspace })
  | .error e => (.error e, server)

/-- `execute_cql_query` moves the session when it returns from a `USE`. -/
def Server.executeCqlQuery (server : Server) (replies : Replies) (query : Bytes) :
    Except TException CqlResult × Server :=
  match recvExecuteCqlQuery replies.executeCqlQuery with
  | .ok result =>
      (.ok result,
        { server with
          keyspace := (server.cqlUse query).getD server.keyspace
          schema := replies.alter server.schema })
  | .error e =>
      (.error e, { server with schema := replies.alter server.schema })

/-! ## The handle -/

/-- `pdo_cassandra_db_handle`; the client is the server session it talks to. -/
structure DbHandle where
  keyspace : Bytes
  ksDefs : Bytes → Option KsDef

structure Conn where
  H : DbHandle
  server : Server

/-! ## What a method hands to PDO -/

/-- Where the memory behind a `char *` comes from. -/
inductive Storage where
  /-- `emalloc`, and so `estrdup`: PDO gives it back with `efree`. -/
  | emalloc
  /-- `malloc`, for which `efree` is the wrong function. -/
  | malloc
  /-- An array of a block that the method has left. -/
  | deadBlock
  deriving DecidableEq

/-- A `char *`, with the C string that is there when the method returns. -/
structure CharPtr where
  text : Bytes
  storage : Storage
  deriving DecidableEq

/-- `estrdup(str.c_str())`. -/
def estrdup (str : Bytes) : CharPtr :=
  ⟨cstr str, .emalloc⟩

/-- What PDO reads at the pointer; in a dead block it finds whatever is left there. -/
def CharPtr.read (ptr : CharPtr) (left : Bytes) : Bytes :=
  match ptr.storage with
  | .deadBlock => left
  | .emalloc | .malloc => ptr.text

@[simp]
theorem CharPtr.read_estrdup (str left : Bytes) : (estrdup str).read left = cstr str := rfl

theorem CharPtr.read_of_live {ptr : CharPtr} (hlive : ptr.storage ≠ .deadBlock)
    (left : Bytes) : ptr.read left = ptr.text := by
  unfold CharPtr.read
  split
  · exact absurd ‹_› hlive
  all_goals rfl

/-! ## How an entry point ends -/

/-- Reads and writes outside the memory that belongs to them. -/
inductive Fault where
  /-- A scanner leaves the mapped memory. -/
  | scanOverrun
  /-- `S->result` is `NULL`. -/
  | nullResult
  /-- `rows[S->index]` is out of range. -/
  | rowIndex
  /-- `stmt->columns` is `NULL`. -/
  | nullColumns
  /-- `stmt->columns[i]` is out of range. -/
  | columnIndex
  /-- `efree` is given a block that `malloc` has allocated. -/
  | foreignFree
  deriving DecidableEq

inductive Exit where
  | ret (value : Int)
  /-- A C++ exception leaves the function. -/
  | escape (e : TException)
  | fault (why : Fault)
  deriving DecidableEq

/-- The exception set for PHP. -/
inductive Thrown where
  /-- `zend_throw_exception` with its message. -/
  | literal (message : Bytes)
  /-- `zend_throw_exception_ex` with its format, and no further argument. -/
  | formatted (format : Bytes)
  deriving DecidableEq

structure Outcome where
  exit : Exit
  thrown : Option Thrown := none
  /-- The exception that a client call raised on the way. -/
  raised : Option TException := none
  deriving DecidableEq

/-- `e.what()` or `e.why`, through its `c_str()`. -/
def throwLiteral (message : Bytes) : Thrown :=
  .literal (cstr message)

/--
The handler of `cassandra_handle_doer` and `pdo_cassandra_stmt_execute`, with the
value each of them returns.
-/
def catchInvalidRequest (failure : Int) (e : TException) : Outcome :=
  match e with
  | .invalidRequest why =>
      { exit := .ret failure
        thrown := some (.formatted (cstr why))
        raised := some e }
  | _ => { exit := .escape e, raised := some e }

/-- The handler returns for an `InvalidRequestException` only. -/
theorem catchInvalidRequest_exit_ret {failure value : Int} {e : TException} :
    (catchInvalidRequest failure e).exit = .ret value ↔
      value = failure ∧ ∃ why, e = .invalidRequest why := by
  cases e <;> simp [catchInvalidRequest, eq_comm]

theorem catchInvalidRequest_exit_ne_fault (failure : Int) (e : TException)
    (why : Fault) : (catchInvalidRequest failure e).exit ≠ .fault why := by
  cases e <;> simp [catchInvalidRequest]

/-! ## The `USE` that the driver recognises -/

/-- The keyspace that `scan_keyspace` finds in a query. -/
def useTarget (query : Query) : Option Bytes :=
  (scanKeyspace query.memory).bind Scan.token

/-- `scan_keyspace` returns on every query. -/
theorem scanKeyspace_memory (query : Query) :
    ∃ reads, scanKeyspace query.memory = some ⟨useTarget query, reads⟩ := by
  obtain ⟨result, hresult⟩ := scanKeyspace_terminated query.text
  refine ⟨result.reads, ?_⟩
  rw [useTarget, Terminated.memory, hresult _ query.mapped, Option.bind_some]

/-- A copy of a query is a `USE` of the same keyspace. -/
theorem useTarget_estrdup (query : Query) : useTarget query.estrdup = useTarget query := by
  obtain ⟨result, hresult⟩ := scanKeyspace_terminated query.text
  have hcopy : scanKeyspace query.estrdup.memory = some result :=
    hresult _ query.estrdup.mapped
  rw [useTarget, useTarget, hcopy, Terminated.memory, hresult _ query.mapped]

end PdoCassandra.Driver
