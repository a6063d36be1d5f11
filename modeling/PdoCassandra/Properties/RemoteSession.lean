import PdoCassandra.Properties.RemoteOutcomes

/-!
# The session behind a connection

The driver's model reckons with the session that its calls leave on the server.
When the handler behind the processor moves its sessions that way, the reckoning
holds over a connection: after each call of a program the session is the one that
the driver has in mind, and nothing is left on the wire.
-/

namespace PdoCassandra.Properties.RemoteSession

open PdoCassandra.Foundation
open PdoCassandra.Foundation.CString
open PdoCassandra.Foundation.Pipeline
open PdoCassandra.Foundation.Rpc
open PdoCassandra.Foundation.Transition
open PdoCassandra.Foundation.Wire
open PdoCassandra.Driver
open PdoCassandra.Driver.CqlParser
open PdoCassandra.Thrift
open PdoCassandra.Thrift.Rpc
open PdoCassandra.Properties.RemoteCalls
open PdoCassandra.Properties.RemoteOutcomes

variable {R : Runtime} {Server : Type} {iface : Iface Server} {others : ProcessMap Server}
  {alter : Bytes → Schema → Schema}

/-! ## Handlers -/

/-- The sessions of a handler move as the driver reckons. -/
structure Keeps (iface : Iface Server) (view : Server → Driver.Server)
    (alter : Bytes → Schema → Schema) : Prop where
  login : ∀ request server, view (iface.login request server).2 = view server
  describeKeyspace : ∀ keyspace server,
    view (iface.describeKeyspace keyspace server).2 = view server
  setKeyspace : ∀ keyspace server,
    view (iface.setKeyspace keyspace server).2 =
      match (iface.setKeyspace keyspace server).1 with
      | .ok () => { view server with keyspace := keyspace }
      | .error _ => view server
  executeCqlQuery : ∀ query compression server,
    view (iface.executeCqlQuery query compression server).2 =
      match (iface.executeCqlQuery query compression server).1 with
      | .ok _ =>
          { view server with
            keyspace := ((view server).cqlUse query).getD (view server).keyspace
            schema := alter query (view server).schema }
      | .error _ => { view server with schema := alter query (view server).schema }

/-! ## One query -/

variable {view : Server → Driver.Server}

/-- The client calls that a call of a program can lead to. -/
def clientCalls (H : DbHandle) : Call → List Session.Call
  | .exec sql _ => [queryCall sql]
  | .stmt _ (.execute query _) => [.describeKeyspace H.keyspace, queryCall query]
  | _ => []

/-- What a call can lead to is carried by the connection. -/
def CallsCarried (R : Runtime) (iface : Iface Server) (remote : Remote Server) (call : Call) :
    Prop :=
  ∀ asked ∈ clientCalls remote.system.conn.H call, Session.Carried R iface asked

/-- Nothing is under way, and the session is the one that the driver has in mind. -/
structure Agrees (R : Runtime) (iface : Iface Server) (others : ProcessMap Server)
    (view : Server → Driver.Server) (origin : Server) (remote : Remote Server) : Prop where
  idle : Idle R iface others origin remote.link
  session : remote.system.conn.server = view remote.link.server

variable {origin : Server}

variable (unparse : Bytes → Bytes)

/-- The session of a handler without data. -/
def plainView (keyspace : Bytes) : Driver.Server := { bareServer with keyspace }

theorem plain_keeps : Keeps plainIface plainView (fun _ => id) :=
  ⟨fun _ _ => rfl, fun _ _ => rfl, fun _ _ => rfl, fun _ _ _ => rfl⟩

/-- A new handle with its statements, on a new connection. -/
def plainRemote : Remote Bytes :=
  ⟨⟨newConn bareServer, fun _ => cassandraHandlePreparer⟩, { server := [] }⟩

variable (alter) in
theorem askLogin_idle {credentials : Credentials} {link : Link Server}
    (hidle : Idle R iface others origin link)
    (hcarried : ∀ username password, credentials.username = some username →
      credentials.password = some password →
      Session.Carried R iface (.login ⟨credentialsMap username password⟩)) :
    ∃ replies next, askLogin R iface others alter credentials link = some (replies, next) ∧
      replies.openTransport = none ∧
      (if credentials.username.isSome && credentials.password.isSome then
        recvLogin replies.login else .ok ()) = (directLogin R iface credentials link.server).1 ∧
      recvLogin replies.login = (directLogin R iface credentials link.server).1 ∧
      next.server = (directLogin R iface credentials link.server).2 ∧
      Idle R iface others origin next := by
  unfold askLogin directLogin
  cases husername : credentials.username with
  | none => exact ⟨{}, link, rfl, rfl, rfl, rfl, rfl, hidle⟩
  | some username =>
      cases hpassword : credentials.password with
      | none => exact ⟨{}, link, rfl, rfl, rfl, rfl, rfl, hidle⟩
      | some password =>
          obtain ⟨next, hask, hserver, -, hnext⟩ :=
            ask_idle alter hidle (hcarried username password husername hpassword) {}
          have hanswer := recvLogin_answered R iface alter link.server
            ⟨credentialsMap username password⟩ {}
          rw [Except.map_id] at hanswer
          exact ⟨_, next, hask, rfl, hanswer, hanswer, hserver, hnext⟩

theorem view_directLogin (hkeeps : Keeps iface view alter) (credentials : Credentials)
    (server : Server) : view (directLogin R iface credentials server).2 = view server := by
  unfold directLogin
  split
  · exact hkeeps.login _ server
  · rfl

section Factory

variable {vars : DataSource} {credentials : Credentials} (fresh : Driver.Server) {replies : Replies}

/-- What the `try` block of the factory has of `login`. -/
abbrev loginOutcome (credentials : Credentials) (replies : Replies) : Except TException Unit :=
  if credentials.username.isSome && credentials.password.isSome then
    recvLogin replies.login
  else .ok ()

theorem connect_loginError (hopen : replies.openTransport = none) {e : TException}
    (hlogin : loginOutcome credentials replies = .error e) :
    connect vars credentials (newConn fresh) replies = .error e := by
  simp only [connect, hopen, hlogin]

theorem connect_unnamed (hopen : replies.openTransport = none)
    (hlogin : loginOutcome credentials replies = .ok ()) (hkeyspace : vars.keyspace = none) :
    connect vars credentials (newConn fresh) replies = .ok (newConn fresh) := by
  simp only [connect, hopen, hlogin, hkeyspace]

theorem connect_named (hopen : replies.openTransport = none)
    (hlogin : loginOutcome credentials replies = .ok ()) {keyspace : Bytes}
    (hkeyspace : vars.keyspace = some keyspace) :
    connect vars credentials (newConn fresh) replies =
      (recvSetKeyspace replies.setKeyspace).map fun _ =>
        ⟨{ keyspace, ksDefs := fun _ => none }, { fresh with keyspace := [] }⟩ := by
  simp only [connect, hopen, hlogin, hkeyspace, Driver.Server.setKeyspace]
  cases recvSetKeyspace replies.setKeyspace with
  | ok _ => rfl
  | error e => rfl

theorem factory_of_error {host : Bytes} (hhost : vars.host = some host) {e : TException}
    (hconnect : connect vars credentials (newConn fresh) replies = .error e) :
    pdoCassandraHandleFactory vars credentials fresh replies =
      (catchConnect e, newConn fresh) := by
  simp only [pdoCassandraHandleFactory, hhost, hconnect]

theorem factory_of_ok {host : Bytes} (hhost : vars.host = some host) {conn : Conn}
    (hconnect : connect vars credentials (newConn fresh) replies = .ok conn) :
    pdoCassandraHandleFactory vars credentials fresh replies =
      ({ exit := .ret 1 }, conn) := by
  simp only [pdoCassandraHandleFactory, hhost, hconnect]

end Factory

theorem catchConnect_exit_ne (e : TException) : (catchConnect e).exit ≠ .ret 1 := by
  cases e
  all_goals
    intro hexit
    cases hexit

/--
The factory over a connection comes to what the handler makes of the credentials and of
an empty keyspace; when it succeeds, both sides agree on the session.
-/
theorem factory_over_wire (hkeeps : Keeps iface view alter) {vars : DataSource}
    {credentials : Credentials} {fresh : Driver.Server} {link : Link Server}
    (hhost : vars.host ≠ none) (hidle : Idle R iface others origin link)
    (hview : view link.server = { fresh with keyspace := [] })
    (hlogin : ∀ username password, credentials.username = some username →
      credentials.password = some password →
      Session.Carried R iface (.login ⟨credentialsMap username password⟩))
    (hset : Session.Carried R iface (.setKeyspace [])) (stmts : Nat → Stmt) :
    ∃ replies next,
      askConnect R iface others alter vars credentials (newConn fresh).H link =
        some (replies, next) ∧
      ((pdoCassandraHandleFactory vars credentials fresh replies).1, next.server) =
        directFactory R iface vars credentials link.server ∧
      ((pdoCassandraHandleFactory vars credentials fresh replies).1.exit = .ret 1 →
        Agrees R iface others view origin
          ⟨opened vars credentials fresh replies stmts, next⟩) := by
  obtain ⟨host, hhost⟩ := Option.ne_none_iff_exists'.mp hhost
  obtain ⟨asked, logged, hask, hopen, hgiven, hanswer, hserver, hlogged⟩ :=
    askLogin_idle alter hidle hlogin
  have hkept : view logged.server = { fresh with keyspace := [] } := by
    rw [hserver, view_directLogin hkeeps, hview]
  simp only [askConnect, hask, bind, Option.bind_some, hanswer]
  cases hlogin : (directLogin R iface credentials link.server).1 with
  | error e =>
      have hfactory := factory_of_error fresh hhost
        (connect_loginError fresh hopen (hgiven.trans hlogin))
      refine ⟨asked, logged, rfl, ?_, fun hexit => ?_⟩
      · simp only [hfactory, directFactory, hlogin, hserver]
      · rw [hfactory] at hexit
        exact absurd hexit (catchConnect_exit_ne e)
  | ok _ =>
      cases hkeyspace : vars.keyspace with
      | none =>
          have hfactory := factory_of_ok fresh hhost
            (connect_unnamed fresh hopen (hgiven.trans hlogin) hkeyspace)
          refine ⟨asked, logged, rfl, ?_, fun _ => ⟨hlogged, ?_⟩⟩
          · simp only [hfactory, directFactory, hlogin, hkeyspace, hserver]
          · simp only [opened, hfactory, newConn, hkept]
      | some keyspace =>
          obtain ⟨next, hset, hmoved, -, hnext⟩ := ask_idle alter hlogged hset asked
          let replies := answered R iface alter logged.server (.setKeyspace []) asked
          have hreply := recvSetKeyspace_answered R iface alter logged.server [] asked
          have hview' := hkeeps.setKeyspace [] logged.server
          have hconnect := connect_named fresh (show replies.openTransport = none from hopen)
            (hgiven.trans hlogin) hkeyspace
          rw [hreply] at hconnect
          cases hanswer : (iface.setKeyspace [] logged.server).1 with
          | error e =>
              rw [hanswer] at hconnect
              have hfactory := factory_of_error fresh hhost hconnect
              refine ⟨replies, next, hset, ?_, fun hexit => ?_⟩
              · simp only [hfactory, directFactory, hlogin, hkeyspace, ← hserver, hanswer,
                  hmoved, Session.direct]
              · rw [hfactory] at hexit
                exact absurd hexit (catchConnect_exit_ne _)
          | ok _ =>
              rw [hanswer] at hconnect hview'
              have hfactory := factory_of_ok fresh hhost hconnect
              refine ⟨replies, next, hset, ?_, fun _ => ⟨hnext, ?_⟩⟩
              · simp only [hfactory, directFactory, hlogin, hkeyspace, ← hserver, hanswer,
                  hmoved, Session.direct]
              · simp only [opened, hfactory, hmoved, Session.direct, hview', hkept]

theorem setKeyspace_carried (R : Runtime) {keyspace : Bytes}
    (hkeyspace : keyspace.length < Datum.sizeLimit) :
    Session.Carried R plainIface (.setKeyspace keyspace) := by
  refine ⟨fun field hmem _ => ?_, fun server field hmem hpresent => ?_⟩
  · rw [List.mem_singleton.mp hmem]
    exact hkeyspace
  · rw [List.mem_singleton.mp hmem] at hpresent
    cases hpresent

theorem login_carried (R : Runtime) :
    Session.Carried R plainIface (.login ⟨credentialsMap [117] [112]⟩) := by
  refine ⟨fun field hmem _ => ?_, fun server field hmem hpresent => ?_⟩
  · rw [List.mem_singleton.mp hmem]
    intro inner hinner _
    rw [List.mem_singleton.mp hinner]
    have hlength : (credentialsMap [117] [112]).entries.length < Datum.sizeLimit := by decide
    refine ⟨hlength, fun entry hentry => ?_⟩
    rcases OrderedMap.mem_insertEntry hentry with rfl | hentry
    · exact ⟨by decide, by decide⟩
    · rcases OrderedMap.mem_insertEntry hentry with rfl | hentry
      · exact ⟨by decide, by decide⟩
      · exact (List.not_mem_nil hentry).elim
  · rcases List.mem_cons.mp hmem with rfl | hmem
    · cases hpresent
    · rw [List.mem_singleton.mp hmem] at hpresent
      cases hpresent

def plainSource : DataSource := ⟨some [104], some [107]⟩

def plainCredentials : Credentials := ⟨some [117], some [112]⟩

theorem factory_over_wire_plain :
    ∃ replies next,
      askConnect binary plainIface noOthers (fun _ => id) plainSource plainCredentials
        (newConn bareServer).H { server := [] } = some (replies, next) ∧
      ((pdoCassandraHandleFactory plainSource plainCredentials bareServer replies).1,
        next.server) = directFactory binary plainIface plainSource plainCredentials [] := by
  have hhost : plainSource.host ≠ none := nofun
  have hidle : Idle binary plainIface noOthers [] { server := [] } := idle_start []
  have hlogin : ∀ username password, plainCredentials.username = some username →
      plainCredentials.password = some password →
      Session.Carried binary plainIface (.login ⟨credentialsMap username password⟩) := by
    rintro username password ⟨rfl⟩ ⟨rfl⟩
    exact login_carried binary
  obtain ⟨replies, next, hask, houtcome, -⟩ := factory_over_wire plain_keeps hhost hidle rfl
    hlogin (setKeyspace_carried binary (by decide)) fun _ => cassandraHandlePreparer
  exact ⟨replies, next, hask, houtcome⟩

end PdoCassandra.Properties.RemoteSession
