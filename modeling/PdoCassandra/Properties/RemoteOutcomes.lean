import PdoCassandra.Driver.Remote
import PdoCassandra.Properties.RemoteCalls

/-!
# What a call comes to over a connection

An entry point over a connection is the same entry point on the handler itself, but
for the exceptions that a method does not declare, which come as application
exceptions, and for the members of a record that are not set.
-/

namespace PdoCassandra.Properties.RemoteOutcomes

open PdoCassandra.Foundation.CString
open PdoCassandra.Foundation.Pipeline
open PdoCassandra.Foundation.Rpc
open PdoCassandra.Foundation.Wire
open PdoCassandra.Driver
open PdoCassandra.Driver.CqlParser
open PdoCassandra.Thrift
open PdoCassandra.Thrift.Rpc
open PdoCassandra.Properties.RemoteCalls

variable {R : Runtime} {Server : Type} {iface : Iface Server} {others : ProcessMap Server}
  {alter : Bytes → Schema → Schema} {origin : Server}

/-! ## Answers -/

section Answers

variable (R iface alter)

theorem recvLogin_answered (server : Server) (request : Records.AuthenticationRequest)
    (replies : Replies) :
    recvLogin (answered R iface alter server (.login request) replies).login =
      ((iface.login request server).1.map id).mapError
        (Session.raised R iface (.login request)) :=
  (recvLogin_incoming R _).trans (Session.login_outcome request _)

theorem recvSetKeyspace_answered (server : Server) (keyspace : Bytes) (replies : Replies) :
    recvSetKeyspace (answered R iface alter server (.setKeyspace keyspace) replies).setKeyspace =
      ((iface.setKeyspace keyspace server).1.map id).mapError
        (Session.raised R iface (.setKeyspace keyspace)) :=
  (recvSetKeyspace_incoming R _).trans (Session.setKeyspace_outcome keyspace _)

theorem recvDescribeKeyspace_answered (server : Server) (keyspace : Bytes)
    (replies : Replies) :
    recvDescribeKeyspace
        (answered R iface alter server (.describeKeyspace keyspace) replies).describeKeyspace =
      ((iface.describeKeyspace keyspace server).1.map fun ksDef => ksDef.received.view).mapError
        (Session.raised R iface (.describeKeyspace keyspace)) := by
  refine (recvDescribeKeyspace_incoming R _).trans ?_
  rw [Session.describeKeyspace_outcome keyspace]
  cases (iface.describeKeyspace keyspace server).1 with
  | ok ksDef => rfl
  | error e => rfl

theorem recvExecuteCqlQuery_answered (server : Server) (query : Bytes) (compression : Int32)
    (replies : Replies) :
    recvExecuteCqlQuery
        (answered R iface alter server (.executeCqlQuery query compression)
          replies).executeCqlQuery =
      ((iface.executeCqlQuery query compression server).1.map
          fun result => result.received.view).mapError
        (Session.raised R iface (.executeCqlQuery query compression)) := by
  refine (recvExecuteCqlQuery_incoming R _).trans ?_
  rw [Session.executeCqlQuery_outcome query compression]
  cases (iface.executeCqlQuery query compression server).1 with
  | ok result => rfl
  | error e => rfl

/-- The reply to a query leaves the one about the schema. -/
theorem answered_describeKeyspace (server : Server) (query : Query) (replies : Replies) :
    (answered R iface alter server (queryCall query) replies).describeKeyspace =
      replies.describeKeyspace := by
  unfold queryCall
  cases useTarget query with
  | some keyspace => rfl
  | none => rfl

end Answers

/-! ## What a call comes to, by the handler's own answers -/

section Direct

variable (R iface)

/-- The lookup of the schema, and the handler behind it. -/
def directSchema (H : DbHandle) (server : Server) : Except TException DbHandle × Server :=
  match H.ksDefs H.keyspace with
  | some _ => (.ok H, server)
  | none =>
      let answer := iface.describeKeyspace H.keyspace server
      ((answer.1.map fun ksDef =>
          { H with
            ksDefs := Function.update H.ksDefs H.keyspace (some ksDef.received.view) }).mapError
          (Session.raised R iface (.describeKeyspace H.keyspace)),
        answer.2)

/-- Execute behind the lookup of the schema. -/
def directQuery (H : DbHandle) (stmt : Stmt) (server : Server) (query : Query) :
    Outcome × DbHandle × Stmt :=
  match scanColumnfamily query.memory with
  | none => ({ exit := .fault .scanOverrun }, H, stmt)
  | some found =>
      let stmt := stmt.setColumnFamily found.token
      match useTarget query with
      | some keyspace =>
          match (iface.setKeyspace keyspace server).1 with
          | .ok () => ({ exit := .ret 0 }, { H with keyspace }, stmt)
          | .error e =>
              (catchInvalidRequest 0 (Session.raised R iface (queryCall query) e), H, stmt)
      | none =>
          match (iface.executeCqlQuery query.text compressionNone server).1 with
          | .ok result => ({ exit := .ret 1 }, H, stmt.setResult result.received.view)
          | .error e =>
              (catchInvalidRequest 0 (Session.raised R iface (queryCall query) e), H, stmt)

/-- The client calls of an execute, in their order. -/
def schemaCalls (H : DbHandle) : List Session.Call :=
  match H.ksDefs H.keyspace with
  | some _ => []
  | none => [.describeKeyspace H.keyspace]

def executeCalls (H : DbHandle) (server : Server) (query : Query) : List Session.Call :=
  schemaCalls H ++
    match (directSchema R iface H server).1, scanColumnfamily query.memory with
    | .ok _, some _ => [queryCall query]
    | _, _ => []

def directExecute (H : DbHandle) (stmt : Stmt) (server : Server) (query : Query) :
    Outcome × DbHandle × Stmt :=
  let described := directSchema R iface H server
  match described.1 with
  | .error e => (catchInvalidRequest 0 e, H, stmt)
  | .ok cached => directQuery R iface cached stmt described.2 query

/-- The factory's `login`, and the handler behind it. -/
def directLogin (credentials : Credentials) (server : Server) :
    Except TException Unit × Server :=
  match credentials.username, credentials.password with
  | some username, some password =>
      let request : Records.AuthenticationRequest := ⟨credentialsMap username password⟩
      let answer := iface.login request server
      (answer.1.mapError (Session.raised R iface (.login request)), answer.2)
  | _, _ => (.ok (), server)

def directFactory (vars : DataSource) (credentials : Credentials) (server : Server) :
    Outcome × Server :=
  let logged := directLogin R iface credentials server
  match logged.1, vars.keyspace with
  | .error e, _ => (catchConnect e, logged.2)
  | .ok (), none => ({ exit := .ret 1 }, logged.2)
  | .ok (), some _ =>
      -- the keyspace of the new handle, whatever the one of the DSN
      let answer := iface.setKeyspace [] logged.2
      match answer.1 with
      | .ok () => ({ exit := .ret 1 }, answer.2)
      | .error e => (catchConnect (Session.raised R iface (.setKeyspace []) e), answer.2)

end Direct

/-! ## The lookup of the schema -/

/-- The lookup of the schema goes by the reply to `describe_keyspace` alone. -/
theorem cacheKeyspace_congr {H : DbHandle} {first second : Replies}
    (hsame : first.describeKeyspace = second.describeKeyspace) :
    cacheKeyspace H first = cacheKeyspace H second := by
  unfold cacheKeyspace
  rw [hsame]

variable (alter) in
/-- The lookup of the schema comes to what the handler answers. -/
theorem askSchema_idle {H : DbHandle} {link : Link Server}
    (hidle : Idle R iface others origin link)
    (hcarried : Session.Carried R iface (.describeKeyspace H.keyspace)) :
    ∃ replies next, askSchema R iface others alter H link = some (replies, next) ∧
      cacheKeyspace H replies = (directSchema R iface H link.server).1 ∧
      next.server = (directSchema R iface H link.server).2 ∧
      next.sent = link.sent ++ schemaCalls H ∧ Idle R iface others origin next := by
  unfold askSchema directSchema schemaCalls
  cases hfind : H.ksDefs H.keyspace with
  | some ksDef =>
      refine ⟨{}, link, rfl, ?_, rfl, (List.append_nil _).symm, hidle⟩
      simp only [cacheKeyspace, hfind]
  | none =>
      obtain ⟨next, hask, hserver, hsent, hnext⟩ := ask_idle alter hidle hcarried {}
      have hanswer := recvDescribeKeyspace_answered R iface alter link.server H.keyspace {}
      refine ⟨_, next, hask, ?_, hserver, hsent, hnext⟩
      simp only [cacheKeyspace, hfind, hanswer]
      cases (iface.describeKeyspace H.keyspace link.server).1 with
      | ok ksDef => rfl
      | error e => rfl

/-! ## `PDO::exec` and execute -/

theorem execute_answered {conn : Conn} {H : DbHandle} {server : Server} {query : Query}
    {asked : Replies} (hcache : cacheKeyspace conn.H asked = .ok H) {found : Scan}
    (hscan : scanColumnfamily query.memory = some found) (stmt : Stmt) {replies : Replies}
    (hreplies : replies = answered R iface alter server (queryCall query) asked) :
    ((pdoCassandraStmtExecute conn stmt query replies).1,
      (pdoCassandraStmtExecute conn stmt query replies).2.1.H,
      (pdoCassandraStmtExecute conn stmt query replies).2.2) =
      directQuery R iface H stmt server query := by
  obtain ⟨reads, hkeyspace⟩ := scanKeyspace_memory query
  have hcached : cacheKeyspace conn.H replies = .ok H := by
    rw [← hcache, hreplies]
    exact cacheKeyspace_congr (answered_describeKeyspace R iface alter _ _ _)
  unfold pdoCassandraStmtExecute directQuery
  rw [hcached, hscan]
  cases huse : useTarget query with
  | some keyspace =>
      have hset := recvSetKeyspace_answered R iface alter server keyspace asked
      simp only [hkeyspace, huse, hreplies, queryCall, Driver.Server.setKeyspace, hset]
      cases (iface.setKeyspace keyspace server).1 with
      | ok _ => rfl
      | error e => rfl
  | none =>
      have hquery := recvExecuteCqlQuery_answered R iface alter server query.text
        compressionNone asked
      simp only [hkeyspace, huse, hreplies, queryCall, Driver.Server.executeCqlQuery, hquery]
      cases (iface.executeCqlQuery query.text compressionNone server).1 with
      | ok result => rfl
      | error e => rfl

variable (alter) in
theorem askExecute_direct {conn : Conn} {link : Link Server} {query : Query}
    (hidle : Idle R iface others origin link)
    (hdescribe : Session.Carried R iface (.describeKeyspace conn.H.keyspace))
    (hquery : Session.Carried R iface (queryCall query)) (stmt : Stmt) :
    ∃ replies next, askExecute R iface others alter conn.H query link =
        some (replies, next) ∧
      ((pdoCassandraStmtExecute conn stmt query replies).1,
        (pdoCassandraStmtExecute conn stmt query replies).2.1.H,
        (pdoCassandraStmtExecute conn stmt query replies).2.2) =
        directExecute R iface conn.H stmt link.server query ∧
      next.sent = link.sent ++ executeCalls R iface conn.H link.server query := by
  obtain ⟨asked, described, hschema, hcache, hserver, hsent, hdescribed⟩ :=
    askSchema_idle alter hidle hdescribe
  simp only [askExecute, hschema, bind, Option.bind_some]
  unfold directExecute executeCalls
  cases hanswer : (directSchema R iface conn.H link.server).1 with
  | error e =>
      rw [hanswer] at hcache
      refine ⟨asked, described, ?_, ?_, ?_⟩
      · simp only [hcache, pure]
      · simp only [pdoCassandraStmtExecute, hcache, hanswer]
      · rw [hsent, List.append_nil]
  | ok H =>
      rw [hanswer] at hcache
      cases hscan : scanColumnfamily query.memory with
      | none =>
          refine ⟨asked, described, ?_, ?_, ?_⟩
          · simp only [hcache, pure]
          · simp only [pdoCassandraStmtExecute, hcache, hanswer, hscan, directQuery]
          · rw [hsent, List.append_nil]
      | some found =>
          obtain ⟨next, hask, -, hasked, -⟩ := ask_idle alter hdescribed hquery asked
          refine ⟨answered R iface alter described.server (queryCall query) asked, next, ?_,
            ?_, ?_⟩
          · simp only [hcache, hask]
          · simp only [hanswer, ← hserver]
            exact execute_answered hcache hscan stmt rfl
          · rw [hasked, hsent, List.append_assoc]

end PdoCassandra.Properties.RemoteOutcomes
