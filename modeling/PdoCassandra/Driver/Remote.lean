import PdoCassandra.Driver.Pdo
import PdoCassandra.Thrift.Projection

/-!
# The driver at one end of a connection

The replies that an entry point goes by are read off the connection: each of its
client calls is sent, served and read before the next one is made.
-/

namespace PdoCassandra.Driver

open PdoCassandra.Foundation
open PdoCassandra.Foundation.CString
open PdoCassandra.Foundation.Pipeline
open PdoCassandra.Foundation.Rpc
open PdoCassandra.Foundation.Wire
open PdoCassandra.Driver.CqlParser
open PdoCassandra.Thrift
open PdoCassandra.Thrift.Rpc

/-- The client and the processor, with what is under way between them. -/
abbrev Link (Server : Type) :=
  State Session.Call (Except TException Session.Value) Server

/-- `Compression::NONE`. -/
def compressionNone : Int32 := 2

/-- The client call that a query leads to. -/
def queryCall (query : Query) : Session.Call :=
  match useTarget query with
  | some keyspace => .setKeyspace keyspace
  | none => .executeCqlQuery query.text compressionNone

section Ask

variable (R : Runtime) {Server : Type} (iface : Iface Server) (others : ProcessMap Server)
  (alter : Bytes → Schema → Schema)

/-! ## One client call -/

/-- The reply at the head of the client's stream. -/
def readIncoming {Args Result View : Type} (method : Method R Args Result)
    (view : Result → View) (wire : Bytes) : Option (Incoming View) :=
  match method.recv wire with
  | .ok (reply, _) => some (incoming R view reply)
  | .error _ => none

/-- The replies with the one to a call, as it is read. -/
def readReply (call : Session.Call) (wire : Bytes) (replies : Replies) : Option Replies :=
  match call with
  | .login _ =>
      (readIncoming R (login R) LoginResult.view wire).map
        fun login => { replies with login }
  | .setKeyspace _ =>
      (readIncoming R (setKeyspace R) SetKeyspaceResult.view wire).map
        fun setKeyspace => { replies with setKeyspace }
  | .describeKeyspace _ =>
      (readIncoming R (describeKeyspace R) DescribeKeyspaceResult.view wire).map
        fun describeKeyspace => { replies with describeKeyspace }
  | .describeVersion =>
      (readIncoming R (describeVersion R) DescribeVersionResult.view wire).map
        fun describeVersion => { replies with describeVersion }
  | .executeCqlQuery query _ =>
      (readIncoming R (executeCqlQuery R) ExecuteCqlQueryResult.view wire).map
        fun executeCqlQuery => { replies with executeCqlQuery, alter := alter query }

/-- A call of the client: it sends, the processor serves, and the client reads. -/
def ask (call : Session.Call) (replies : Replies) (link : Link Server) :
    Option (Replies × Link Server) := do
  let sent ← step (Session.exchange R iface others) link (.send call)
  let served ← step (Session.exchange R iface others) sent .serve
  let replies ← readReply R alter call served.toClient replies
  let link ← step (Session.exchange R iface others) served (.take call)
  pure (replies, link)

/-! ## The client calls of an entry point -/

/-- `describe_keyspace`, when the current keyspace is not cached. -/
def askSchema (H : DbHandle) (link : Link Server) : Option (Replies × Link Server) :=
  match H.ksDefs H.keyspace with
  | some _ => some ({}, link)
  | none => ask R iface others alter (.describeKeyspace H.keyspace) {} link

def askExecute (H : DbHandle) (query : Query) (link : Link Server) :
    Option (Replies × Link Server) := do
  let asked ← askSchema R iface others alter H link
  match cacheKeyspace H asked.1, scanColumnfamily query.memory with
  | .ok _, some _ => ask R iface others alter (queryCall query) asked.1 asked.2
  | _, _ => pure asked

def askFor (H : DbHandle) (link : Link Server) : Call → Option (Replies × Link Server)
  | .exec sql _ => ask R iface others alter (queryCall sql) {} link
  | .stmt _ (.execute query _) => askExecute R iface others alter H query link
  | _ => some ({}, link)

/-- `auth_request.credentials`. -/
def credentialsMap (username password : Bytes) : Codec.StringMap :=
  let map : Codec.StringMap := OrderedMap.empty
  (map.put (bytesOf "username") (cstr username)).put (bytesOf "password") (cstr password)

/-- `login`, when there are both a user and a password. -/
def askLogin (credentials : Credentials) (link : Link Server) :
    Option (Replies × Link Server) :=
  match credentials.username, credentials.password with
  | some username, some password =>
      ask R iface others alter (.login ⟨credentialsMap username password⟩) {} link
  | _, _ => some ({}, link)

/-- What the factory asks for on a connection that is open. -/
def askConnect (vars : DataSource) (credentials : Credentials) (H : DbHandle)
    (link : Link Server) : Option (Replies × Link Server) := do
  let asked ← askLogin R iface others alter credentials link
  match recvLogin asked.1.login, vars.keyspace with
  | .ok (), some _ => ask R iface others alter (.setKeyspace H.keyspace) asked.1 asked.2
  | _, _ => pure asked

/-- A call with what comes back for it. -/
def withReplies (replies : Replies) : Call → Call
  | .exec sql _ => .exec sql replies
  | .stmt i (.execute query _) => .stmt i (.execute query replies)
  | call => call

/-- A program's handle and statements, with the connection behind the handle. -/
structure Remote (Server : Type) where
  system : System
  link : Link Server

/-- A call of the program, with the replies that the connection brings. -/
def Remote.next (unparse : Bytes → Bytes) (remote : Remote Server) (call : Call) :
    Option (Remote Server) := do
  let asked ← askFor R iface others alter remote.system.conn.H remote.link call
  let system ← remote.system.next unparse (withReplies asked.1 call)
  pure ⟨system, asked.2⟩

/-- What a call over the connection is to the driver's own machine. -/
def Served (call label : Call) : Prop :=
  ∃ replies, label = withReplies replies call

theorem Remote.next_served {unparse : Bytes → Bytes} {remote next : Remote Server} {call : Call}
    (hnext : remote.next R iface others alter unparse call = some next) :
    ∃ label, Served call label ∧ remote.system.next unparse label = some next.system := by
  obtain ⟨asked, -, hrest⟩ := Option.bind_eq_some_iff.mp hnext
  obtain ⟨system, hsystem, hpure⟩ := Option.bind_eq_some_iff.mp hrest
  cases hpure
  exact ⟨_, ⟨asked.1, rfl⟩, hsystem⟩

/-! ## What comes back -/

/-- The replies with the one that the handler gives to a call. -/
def answered (server : Server) (call : Session.Call) (replies : Replies) : Replies :=
  match call with
  | .login request =>
      { replies with
        login := incoming R LoginResult.view
          ((login R).received (catchLogin iface (iface.login request server).1)) }
  | .setKeyspace keyspace =>
      { replies with
        setKeyspace := incoming R SetKeyspaceResult.view
          ((setKeyspace R).received
            (catchSetKeyspace iface (iface.setKeyspace keyspace server).1)) }
  | .describeKeyspace keyspace =>
      { replies with
        describeKeyspace := incoming R DescribeKeyspaceResult.view
          ((describeKeyspace R).received
            (catchDescribeKeyspace iface (iface.describeKeyspace keyspace server).1)) }
  | .describeVersion =>
      { replies with
        describeVersion := incoming R DescribeVersionResult.view
          ((describeVersion R).received
            (catchDescribeVersion iface (iface.describeVersion server).1)) }
  | .executeCqlQuery query compression =>
      { replies with
        executeCqlQuery := incoming R ExecuteCqlQueryResult.view
          ((executeCqlQuery R).received
            (catchExecuteCqlQuery iface (iface.executeCqlQuery query compression server).1))
        alter := alter query }

variable {R} {iface}

theorem readIncoming_reply {Args Result View : Type} {method : Method R Args Result}
    (view : Result → View) {reply : Reply Result} (hfits : method.ReplyFits reply) :
    readIncoming R method view (method.reply 0 reply) =
      some (incoming R view (method.received reply)) := by
  have hreads := Method.recv_reply hfits 0 []
  rw [List.append_nil] at hreads
  rw [readIncoming, hreads]

/-- A reply is read as the handler gave it. -/
theorem readReply_replyTo (server : Server) {call : Session.Call}
    (hcarried : Session.Carried R iface call) (replies : Replies) :
    readReply R alter call (Session.replyTo R iface server call) replies =
      some (answered R iface alter server call replies) := by
  cases call with
  | login request =>
      exact congrArg (Option.map _) (readIncoming_reply _ (hcarried.2 server))
  | setKeyspace keyspace =>
      exact congrArg (Option.map _) (readIncoming_reply _ (hcarried.2 server))
  | describeKeyspace keyspace =>
      exact congrArg (Option.map _) (readIncoming_reply _ (hcarried.2 server))
  | describeVersion =>
      exact congrArg (Option.map _) (readIncoming_reply _ (hcarried server))
  | executeCqlQuery query compression =>
      exact congrArg (Option.map _) (readIncoming_reply _ (hcarried.2 server))

variable {others}

/-- Nothing is under way; the calls made so far are served and read. -/
def Idle (R : Runtime) (iface : Iface Server) (others : ProcessMap Server) (origin : Server)
    (link : Link Server) : Prop :=
  ∃ done, InFlight (Session.exchange R iface others) origin link done [] []

theorem idle_start (server : Server) : Idle R iface others server { server := server } :=
  ⟨[], inFlight_start server⟩

/-- A client call on an idle connection brings the handler's answer. -/
theorem ask_idle {origin : Server} {link : Link Server} (hidle : Idle R iface others origin link)
    {call : Session.Call} (hcarried : Session.Carried R iface call) (replies : Replies) :
    ∃ next, ask R iface others alter call replies link =
        some (answered R iface alter link.server call replies, next) ∧
      next.server = (Session.direct iface link.server call).2 ∧
      next.sent = link.sent ++ [call] ∧ Idle R iface others origin next := by
  obtain ⟨done, hflight⟩ := hidle
  have hcall : (Session.exchange R iface others).Carried call := hcarried
  obtain ⟨sent, served, next, hsend, hserve, htake, hreply, hserver, hnext⟩ :=
    round_idle hcall hflight
  have hsent : next.sent = link.sent ++ [call] := by
    rw [hnext.sent, hflight.sent, List.append_nil, List.append_nil, List.append_nil]
  refine ⟨next, ?_, hserver, hsent, done ++ [call], hnext⟩
  have hread : readReply R alter call served.toClient replies =
      some (answered R iface alter link.server call replies) := by
    rw [hreply]
    exact readReply_replyTo alter link.server hcarried replies
  simp only [ask, hsend, hserve, hread, htake, bind, Option.bind_some, pure]

end Ask

end PdoCassandra.Driver
