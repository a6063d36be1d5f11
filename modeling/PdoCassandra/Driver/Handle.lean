import Mathlib.Algebra.Group.Int.Defs
import Mathlib.Algebra.Group.Nat.Defs
import PdoCassandra.Driver.Connection

/-!
# The handle methods of `cassandra_driver.cpp`
-/

namespace PdoCassandra.Driver

open PdoCassandra.Foundation.CString
open PdoCassandra.Driver.CqlParser
open PdoCassandra.Thrift

/-! ## `pdo_cassandra_handle_factory` -/

/-- The values that PDO's parser finds in the DSN; `none` for a missing one. -/
structure DataSource where
  host : Option Bytes
  keyspace : Option Bytes

/-- `dbh->username` and `dbh->password`. -/
structure Credentials where
  username : Option Bytes
  password : Option Bytes

/-- The handlers behind the factory's `try` block. -/
def catchConnect (e : TException) : Outcome :=
  match e with
  | .invalidRequest why =>
      { exit := .ret 0, thrown := some (throwLiteral why), raised := some e }
  | .transport what =>
      { exit := .ret 0, thrown := some (throwLiteral what), raised := some e }
  | .application what =>
      { exit := .ret 0, thrown := some (throwLiteral what), raised := some e }
  | _ => { exit := .escape e, raised := some e }

/-- The client calls of the factory's `try` block, up to the session's keyspace. -/
def connect (vars : DataSource) (credentials : Credentials) (conn : Conn)
    (replies : Replies) : Except TException Conn :=
  match replies.openTransport with
  | some what => .error (.transport what)
  | none =>
      let login :=
        if credentials.username.isSome && credentials.password.isSome then
          recvLogin replies.login
        else .ok ()
      match login with
      | .error e => .error e
      | .ok () =>
          match vars.keyspace with
          | none => .ok conn
          | some keyspace =>
              -- the source passes `*H->keyspace`, which is still empty here
              match conn.server.setKeyspace replies conn.H.keyspace with
              | (.error e, _) => .error e
              | (.ok (), server) => .ok ⟨{ conn.H with keyspace }, server⟩

/-- A handle as the factory allocates it, in a new session. -/
def newConn (server : Server) : Conn where
  H := { keyspace := [], ksDefs := fun _ => none }
  server := { server with keyspace := [] }

def pdoCassandraHandleFactory (vars : DataSource) (credentials : Credentials)
    (server : Server) (replies : Replies) : Outcome × Conn :=
  let conn := newConn server
  match vars.host with
  | none =>
      ({ exit := .ret 0
         thrown := some (.literal (bytesOf "invalid data source name")) }, conn)
  | some _ =>
      match connect vars credentials conn replies with
      | .error e => (catchConnect e, conn)
      | .ok conn => ({ exit := .ret 1 }, conn)

/-- `set_keyspace` is called with the keyspace that the new handle has, not the DSN's. -/
theorem connect_ok {vars : DataSource} {credentials : Credentials} {server : Server}
    {replies : Replies} {conn : Conn}
    (hconnect : connect vars credentials (newConn server) replies = .ok conn) :
    conn = ⟨{ keyspace := vars.keyspace.getD [], ksDefs := fun _ => none },
      { server with keyspace := [] }⟩ := by
  unfold connect at hconnect
  cases hopened : replies.openTransport with
  | some what => simp [hopened] at hconnect
  | none =>
      simp only [hopened] at hconnect
      split at hconnect
      · cases hconnect
      · cases hkeyspace : vars.keyspace with
        | none =>
            simp only [hkeyspace, Except.ok.injEq] at hconnect
            exact hconnect.symm
        | some keyspace =>
            cases hset : recvSetKeyspace replies.setKeyspace with
            | error e => simp [hkeyspace, Server.setKeyspace, hset] at hconnect
            | ok _ =>
                simp only [hkeyspace, Server.setKeyspace, hset,
                  Except.ok.injEq] at hconnect
                exact hconnect.symm

/-- The handle and the session behind a successful connect. -/
theorem pdoCassandraHandleFactory_opened {vars : DataSource}
    {credentials : Credentials} {server : Server} {replies : Replies}
    (hopen : (pdoCassandraHandleFactory vars credentials server replies).1.exit = .ret 1) :
    (pdoCassandraHandleFactory vars credentials server replies).2 =
      ⟨{ keyspace := vars.keyspace.getD [], ksDefs := fun _ => none },
        { server with keyspace := [] }⟩ := by
  unfold pdoCassandraHandleFactory at hopen ⊢
  cases hhost : vars.host with
  | none => simp [hhost] at hopen
  | some host =>
      simp only [hhost] at hopen ⊢
      cases hconnect : connect vars credentials (newConn server) replies with
      | error e =>
          simp only [hconnect] at hopen
          cases e <;> cases hopen
      | ok conn =>
          exact connect_ok hconnect

/-! ## `cassandra_handle_doer` -/

/-- What `PDO::exec` returns for a result. -/
def affectedRows (result : CqlResult) : Int :=
  match result.type with
  | .rows => result.rows.length
  | .int => result.num
  | .void | .other _ => 0

def cassandraHandleDoer (conn : Conn) (sql : Query) (replies : Replies) :
    Outcome × Conn :=
  match scanKeyspace sql.estrdup.memory with
  | none => ({ exit := .fault .scanOverrun }, conn)
  | some ⟨some keyspace, _⟩ =>
      match conn.server.setKeyspace replies keyspace with
      | (.ok (), server) =>
          ({ exit := .ret 0 }, ⟨{ conn.H with keyspace }, server⟩)
      | (.error e, server) => (catchInvalidRequest (-1) e, { conn with server })
  | some ⟨none, _⟩ =>
      match conn.server.executeCqlQuery replies sql.text with
      | (.ok result, server) =>
          ({ exit := .ret (affectedRows result) }, { conn with server })
      | (.error e, server) => (catchInvalidRequest (-1) e, { conn with server })

/-! ## `cassandra_handle_quoter` -/

/-- `snprintf` into a buffer of `size` bytes: the C string it leaves there. -/
def snprintf (size : Nat) (text : Bytes) : Bytes :=
  text.take (size - 1)

/-- The conversion of a signed integer to `size_t`. -/
def sizeT (value : Int) : Nat :=
  (value % 2 ^ 64).toNat

theorem sizeT_ofNat {value : Nat} (hvalue : value < 2 ^ 64) : sizeT value = value := by
  unfold sizeT
  omega

/-- `2 * unquotedlen + 3`, computed in `int` and passed on as `size_t`. -/
def quotedSize (unquotedlen : Nat) : Nat :=
  sizeT (2 * Int32.ofNat unquotedlen + 3).toInt

/-- The buffer has its full size, for the lengths that do not overflow an `int`. -/
theorem quotedSize_of_le {unquotedlen : Nat} (hlength : unquotedlen ≤ 2 ^ 29) :
    quotedSize unquotedlen = 2 * unquotedlen + 3 := by
  have hint : (2 * Int32.ofNat unquotedlen + 3).toInt = (2 * unquotedlen + 3 : Nat) := by
    have hsame : 2 * Int32.ofNat unquotedlen + 3 = Int32.ofNat (2 * unquotedlen + 3) := by
      rw [Int32.ofNat_add, Int32.ofNat_mul]
      rfl
    rw [hsame]
    apply Int32.toInt_ofNat_of_lt
    omega
  rw [quotedSize, hint, sizeT_ofNat (by omega)]

/--
The text in `*quoted`, a block from `safe_emalloc` that PDO frees; `*quotedlen` is its
`strlen`.
-/
def cassandraHandleQuoter (unquoted : Bytes) : Bytes :=
  cstr (snprintf (quotedSize unquoted.length)
    (bytesOf "'" ++ cstr unquoted ++ bytesOf "'"))

/-! ## `pdo_cassandra_get_attribute` -/

inductive Attribute where
  /-- `PDO_ATTR_SERVER_VERSION`. -/
  | serverVersion
  | other (attr : Int)
  deriving DecidableEq

/-- The outcome, and the string put in `return_value`, an `estrdup` of the version. -/
def pdoCassandraGetAttribute (attr : Attribute) (replies : Replies) :
    Outcome × Option Bytes :=
  match attr with
  | .serverVersion =>
      match recvDescribeVersion replies.describeVersion with
      | .error e => ({ exit := .escape e, raised := some e }, none)
      | .ok version => ({ exit := .ret 1 }, some (cstr version))
  | .other _ => ({ exit := .ret 1 }, none)

/-! ## What `cassandra_handle_doer` can do -/

/-- The ways through the doer, with the state each one leaves. -/
inductive DoerExit (conn : Conn) (sql : Query) (replies : Replies) :
    Outcome → Conn → Prop where
  | used {keyspace : Bytes} (huse : useTarget sql = some keyspace)
      (hset : recvSetKeyspace replies.setKeyspace = .ok ()) :
      DoerExit conn sql replies { exit := .ret 0 }
        ⟨{ conn.H with keyspace }, { conn.server with keyspace }⟩
  | useRaised {keyspace : Bytes} {e : TException}
      (huse : useTarget sql = some keyspace)
      (hset : recvSetKeyspace replies.setKeyspace = .error e) :
      DoerExit conn sql replies (catchInvalidRequest (-1) e) conn
  | queried {result : CqlResult} (huse : useTarget sql = none)
      (hquery : recvExecuteCqlQuery replies.executeCqlQuery = .ok result) :
      DoerExit conn sql replies { exit := .ret (affectedRows result) }
        ⟨conn.H,
          { conn.server with
            keyspace := (conn.server.cqlUse sql.text).getD conn.server.keyspace
            schema := replies.alter conn.server.schema }⟩
  | queryRaised {e : TException} (huse : useTarget sql = none)
      (hquery : recvExecuteCqlQuery replies.executeCqlQuery = .error e) :
      DoerExit conn sql replies (catchInvalidRequest (-1) e)
        ⟨conn.H, { conn.server with schema := replies.alter conn.server.schema }⟩

theorem cassandraHandleDoer_exit {conn after : Conn} {sql : Query}
    {replies : Replies} {outcome : Outcome}
    (hcall : cassandraHandleDoer conn sql replies = (outcome, after)) :
    DoerExit conn sql replies outcome after := by
  obtain ⟨reads, hscan⟩ := scanKeyspace_memory sql.estrdup
  rw [useTarget_estrdup] at hscan
  unfold cassandraHandleDoer at hcall
  rw [hscan] at hcall
  cases huse : useTarget sql with
  | some keyspace =>
      simp only [huse, Server.setKeyspace] at hcall
      cases hset : recvSetKeyspace replies.setKeyspace with
      | ok _ =>
          simp only [hset] at hcall
          cases hcall
          exact .used huse hset
      | error e =>
          simp only [hset] at hcall
          cases hcall
          exact .useRaised huse hset
  | none =>
      simp only [huse, Server.executeCqlQuery] at hcall
      cases hquery : recvExecuteCqlQuery replies.executeCqlQuery with
      | ok result =>
          simp only [hquery] at hcall
          cases hcall
          exact .queried huse hquery
      | error e =>
          simp only [hquery] at hcall
          cases hcall
          exact .queryRaised huse hquery

end PdoCassandra.Driver
