import PdoCassandra.Thrift.Rpc

/-!
# The driver's calls as one exchange

A session makes the five calls in any order over one connection.  What a call
delivers is what the handler returned, with the unset members of a record as the
constructor has them, and with an exception that the method does not declare as an
application exception.
-/

namespace PdoCassandra.Thrift.Session

open PdoCassandra.Foundation.CString
open PdoCassandra.Foundation.Pipeline
open PdoCassandra.Foundation.Rpc
open PdoCassandra.Foundation.Wire
open PdoCassandra.Thrift.Records
open PdoCassandra.Thrift.Rpc

/-! ## Calls and values -/

inductive Call where
  | login (request : AuthenticationRequest)
  | setKeyspace (keyspace : Bytes)
  | describeKeyspace (keyspace : Bytes)
  | describeVersion
  | executeCqlQuery (query : Bytes) (compression : Int32)

inductive Value where
  | done
  | ksDef (ksDef : Records.KsDef)
  | version (version : Bytes)
  | result (result : Records.CqlResult)

namespace Value

def received : Value → Value
  | .done => .done
  | .ksDef record => .ksDef record.received
  | .version text => .version text
  | .result record => .result record.received

end Value

namespace Call

/-- The exceptions that the method of a call declares. -/
def declares : Call → TException → Bool
  | .login _, .authentication _ | .login _, .authorization _ => true
  | .setKeyspace _, .invalidRequest _ => true
  | .describeKeyspace _, .notFound | .describeKeyspace _, .invalidRequest _ => true
  | .executeCqlQuery _ _, .invalidRequest _ | .executeCqlQuery _ _, .unavailable
  | .executeCqlQuery _ _, .timedOut | .executeCqlQuery _ _, .schemaDisagreement => true
  | _, _ => false

end Call

variable (R : Runtime) {Server : Type} (iface : Iface Server)

/-! ## Both ends -/

def send : Call → Bytes
  | .login request => (login R).send ⟨request⟩
  | .setKeyspace keyspace => (setKeyspace R).send ⟨keyspace⟩
  | .describeKeyspace keyspace => (describeKeyspace R).send ⟨keyspace⟩
  | .describeVersion => (describeVersion R).send {}
  | .executeCqlQuery query compression => (executeCqlQuery R).send ⟨query, compression⟩

/-- A `recv_` function, with its value among those of all methods. -/
def recvOf {Args Result Returned : Type} (method : Method R Args Result)
    (accept : Result → Except TException Returned) (value : Returned → Value) :
    Reader (Except TException Value) := do
  let reply ← method.recv
  pure ((outcomeOf R accept reply).map value)

def recv : Call → Reader (Except TException Value)
  | .login _ => recvOf R (login R) acceptLogin fun _ => .done
  | .setKeyspace _ => recvOf R (setKeyspace R) acceptSetKeyspace fun _ => .done
  | .describeKeyspace _ => recvOf R (describeKeyspace R) acceptDescribeKeyspace .ksDef
  | .describeVersion => recvOf R (describeVersion R) acceptDescribeVersion .version
  | .executeCqlQuery _ _ => recvOf R (executeCqlQuery R) acceptExecuteCqlQuery .result

/-- What a `recv_` function reads behind the beginning of its reply. -/
def resultOf {Args Result Returned : Type} (method : Method R Args Result)
    (accept : Result → Except TException Returned) (value : Returned → Value) :
    Reader (Except TException Value) := do
  let reply ← method.readResult
  pure ((outcomeOf R accept reply).map value)

def readResult : Call → Reader (Except TException Value)
  | .login _ => resultOf R (login R) acceptLogin fun _ => .done
  | .setKeyspace _ => resultOf R (setKeyspace R) acceptSetKeyspace fun _ => .done
  | .describeKeyspace _ => resultOf R (describeKeyspace R) acceptDescribeKeyspace .ksDef
  | .describeVersion => resultOf R (describeVersion R) acceptDescribeVersion .version
  | .executeCqlQuery _ _ => resultOf R (executeCqlQuery R) acceptExecuteCqlQuery .result

/-- The name in the messages of a call. -/
def nameOf : Call → Bytes
  | .login _ => (login R).name
  | .setKeyspace _ => (setKeyspace R).name
  | .describeKeyspace _ => (describeKeyspace R).name
  | .describeVersion => (describeVersion R).name
  | .executeCqlQuery _ _ => (executeCqlQuery R).name

/-- The call made on the handler itself. -/
def direct (server : Server) : Call → Except TException Value × Server
  | .login request =>
      let outcome := iface.login request server
      (outcome.1.map fun _ => .done, outcome.2)
  | .setKeyspace keyspace =>
      let outcome := iface.setKeyspace keyspace server
      (outcome.1.map fun _ => .done, outcome.2)
  | .describeKeyspace keyspace =>
      let outcome := iface.describeKeyspace keyspace server
      (outcome.1.map .ksDef, outcome.2)
  | .describeVersion =>
      let outcome := iface.describeVersion server
      (outcome.1.map .version, outcome.2)
  | .executeCqlQuery query compression =>
      let outcome := iface.executeCqlQuery query compression server
      (outcome.1.map .result, outcome.2)

/-- What a call raises when its handler raises an exception. -/
def raised (call : Call) (e : TException) : TException :=
  if call.declares e then e
  else .application (R.what ⟨ApplicationException.unknown, iface.what e⟩)

/-- What the client is to have of the handler's outcome. -/
def deliver (call : Call) (outcome : Except TException Value) : Except TException Value :=
  (outcome.map Value.received).mapError (raised R iface call)

/-- The answer of the processor, and the handler behind it. -/
def replyTo (server : Server) : Call → Bytes
  | .login request => (login R).reply 0 (handleLogin iface ⟨request⟩ server).1
  | .setKeyspace keyspace =>
      (setKeyspace R).reply 0 (handleSetKeyspace iface ⟨keyspace⟩ server).1
  | .describeKeyspace keyspace =>
      (describeKeyspace R).reply 0 (handleDescribeKeyspace iface ⟨keyspace⟩ server).1
  | .describeVersion => (describeVersion R).reply 0 (handleDescribeVersion iface {} server).1
  | .executeCqlQuery query compression =>
      (executeCqlQuery R).reply 0
        (handleExecuteCqlQuery iface ⟨query, compression⟩ server).1

/-- The arguments fit on the wire, and so does whatever the handler may answer. -/
def Carried : Call → Prop
  | .login request =>
      (login R).args.Fits ⟨request⟩ ∧
        ∀ server, (login R).ReplyFits (handleLogin iface ⟨request⟩ server).1
  | .setKeyspace keyspace =>
      (setKeyspace R).args.Fits ⟨keyspace⟩ ∧
        ∀ server, (setKeyspace R).ReplyFits (handleSetKeyspace iface ⟨keyspace⟩ server).1
  | .describeKeyspace keyspace =>
      (describeKeyspace R).args.Fits ⟨keyspace⟩ ∧ ∀ server,
        (describeKeyspace R).ReplyFits (handleDescribeKeyspace iface ⟨keyspace⟩ server).1
  | .describeVersion =>
      ∀ server, (describeVersion R).ReplyFits (handleDescribeVersion iface {} server).1
  | .executeCqlQuery query compression =>
      (executeCqlQuery R).args.Fits ⟨query, compression⟩ ∧ ∀ server,
        (executeCqlQuery R).ReplyFits
          (handleExecuteCqlQuery iface ⟨query, compression⟩ server).1

/-! ## Arguments -/

theorem loginArgs_overlay (args : LoginArgs) :
    (login R).args.overlay {} args = args := by
  rw [Record.overlay_eq_foldl]
  change (⟨(AuthenticationRequest.record R.toProtocol).overlay {} args.authRequest⟩ : LoginArgs) = _
  rw [Record.overlay_eq_foldl]
  rfl

theorem keyspaceArgs_overlay (args : KeyspaceArgs) :
    (KeyspaceArgs.record R.toProtocol).overlay {} args = args := by
  rw [Record.overlay_eq_foldl]
  rfl

theorem executeCqlQueryArgs_overlay (args : ExecuteCqlQueryArgs) :
    (ExecuteCqlQueryArgs.record R.toProtocol).overlay {} args = args := by
  rw [Record.overlay_eq_foldl]
  rfl

/-! ## Outcomes -/

variable {R} {iface}

theorem login_outcome (request : AuthenticationRequest) (outcome : Except TException Unit) :
    outcomeOf R acceptLogin ((login R).received (catchLogin iface outcome)) =
      (outcome.map id).mapError (raised R iface (.login request)) := by
  cases outcome with
  | ok => rfl
  | error e => cases e <;> rfl

theorem setKeyspace_outcome (keyspace : Bytes) (outcome : Except TException Unit) :
    outcomeOf R acceptSetKeyspace ((setKeyspace R).received (catchSetKeyspace iface outcome)) =
      (outcome.map id).mapError (raised R iface (.setKeyspace keyspace)) := by
  cases outcome with
  | ok => rfl
  | error e => cases e <;> rfl

theorem describeKeyspace_outcome (keyspace : Bytes)
    (outcome : Except TException Records.KsDef) :
    outcomeOf R acceptDescribeKeyspace
        ((describeKeyspace R).received (catchDescribeKeyspace iface outcome)) =
      (outcome.map Records.KsDef.received).mapError
        (raised R iface (.describeKeyspace keyspace)) := by
  cases outcome with
  | ok ksDef =>
      change Except.ok ((Records.KsDef.record R.toProtocol).overlay {} ksDef) = _
      rw [Records.KsDef.overlay_fresh]
      rfl
  | error e => cases e <;> rfl

theorem describeVersion_outcome (outcome : Except TException Bytes) :
    outcomeOf R acceptDescribeVersion
        ((describeVersion R).received (catchDescribeVersion iface outcome)) =
      (outcome.map id).mapError (raised R iface .describeVersion) := by
  cases outcome with
  | ok version => rfl
  | error e => cases e <;> rfl

theorem executeCqlQuery_outcome (query : Bytes) (compression : Int32)
    (outcome : Except TException Records.CqlResult) :
    outcomeOf R acceptExecuteCqlQuery
        ((executeCqlQuery R).received (catchExecuteCqlQuery iface outcome)) =
      (outcome.map Records.CqlResult.received).mapError
        (raised R iface (.executeCqlQuery query compression)) := by
  cases outcome with
  | ok result =>
      change Except.ok ((Records.CqlResult.record R.toProtocol).overlay {} result) = _
      rw [Records.CqlResult.overlay_fresh]
      rfl
  | error e => cases e <;> rfl

/-- A `recv_` function that finds an outcome puts it among those of all methods. -/
theorem recvOf_reads {Args Result Returned : Type} {method : Method R Args Result}
    {accept : Result → Except TException Returned} {value : Returned → Value}
    {call : Call} {wire : Bytes} {reply : Reply Result} (hwire : Reads method.recv wire reply)
    {read : Returned → Returned} {outcome : Except TException Returned}
    (hreply : outcomeOf R accept reply = (outcome.map read).mapError (raised R iface call))
    (hread : ∀ returned, (value returned).received = value (read returned)) :
    Reads (recvOf R method accept value) wire (deliver R iface call (outcome.map value)) := by
  have hdeliver : (outcomeOf R accept reply).map value =
      deliver R iface call (outcome.map value) := by
    rw [hreply]
    cases outcome with
    | ok returned => exact congrArg Except.ok (hread returned).symm
    | error e => rfl
  rw [← hdeliver]
  exact hwire.bind_pure _

/-! ## The exchange -/

variable (iface) (others : ProcessMap Server)

theorem processMap_login :
    processMap R iface others (login R).name = some ((login R).process (handleLogin iface)) :=
  if_pos rfl

theorem processMap_setKeyspace :
    processMap R iface others (setKeyspace R).name =
      some ((setKeyspace R).process (handleSetKeyspace iface)) := by
  have hlogin : bytesOf "set_keyspace" ≠ bytesOf "login" := by decide
  exact (if_neg hlogin).trans (if_pos rfl)

theorem processMap_describeKeyspace :
    processMap R iface others (describeKeyspace R).name =
      some ((describeKeyspace R).process (handleDescribeKeyspace iface)) := by
  have hlogin : bytesOf "describe_keyspace" ≠ bytesOf "login" := by decide
  have hset : bytesOf "describe_keyspace" ≠ bytesOf "set_keyspace" := by decide
  exact (if_neg hlogin).trans ((if_neg hset).trans (if_pos rfl))

theorem processMap_describeVersion :
    processMap R iface others (describeVersion R).name =
      some ((describeVersion R).process (handleDescribeVersion iface)) := by
  have hlogin : bytesOf "describe_version" ≠ bytesOf "login" := by decide
  have hset : bytesOf "describe_version" ≠ bytesOf "set_keyspace" := by decide
  have hdescribe : bytesOf "describe_version" ≠ bytesOf "describe_keyspace" := by decide
  exact (if_neg hlogin).trans ((if_neg hset).trans ((if_neg hdescribe).trans (if_pos rfl)))

theorem processMap_executeCqlQuery :
    processMap R iface others (executeCqlQuery R).name =
      some ((executeCqlQuery R).process (handleExecuteCqlQuery iface)) := by
  have hlogin : bytesOf "execute_cql_query" ≠ bytesOf "login" := by decide
  have hset : bytesOf "execute_cql_query" ≠ bytesOf "set_keyspace" := by decide
  have hdescribe : bytesOf "execute_cql_query" ≠ bytesOf "describe_keyspace" := by decide
  have hversion : bytesOf "execute_cql_query" ≠ bytesOf "describe_version" := by decide
  exact (if_neg hlogin).trans ((if_neg hset).trans
    ((if_neg hdescribe).trans ((if_neg hversion).trans (if_pos rfl))))

variable {iface}

theorem process_call (server : Server) {call : Call} (hcarried : Carried R iface call) :
    Reads (process R (processMap R iface others) server) (send R call)
      (replyTo R iface server call, (direct iface server call).2) := by
  cases call with
  | login request =>
      have hreads := Method.process_send (processMap_login iface others) hcarried.1 server
      rwa [show (login R).freshArgs = {} from rfl, loginArgs_overlay] at hreads
  | setKeyspace keyspace =>
      have hreads := Method.process_send (processMap_setKeyspace iface others) hcarried.1 server
      rwa [show (setKeyspace R).args.overlay (setKeyspace R).freshArgs ⟨keyspace⟩ = ⟨keyspace⟩
        from keyspaceArgs_overlay R ⟨keyspace⟩] at hreads
  | describeKeyspace keyspace =>
      have hreads := Method.process_send (processMap_describeKeyspace iface others)
        hcarried.1 server
      rwa [show (describeKeyspace R).args.overlay (describeKeyspace R).freshArgs ⟨keyspace⟩ =
        ⟨keyspace⟩ from keyspaceArgs_overlay R ⟨keyspace⟩] at hreads
  | describeVersion =>
      have hfits : (describeVersion R).args.Fits {} := fun _ hmem => nomatch hmem
      exact Method.process_send (processMap_describeVersion iface others) hfits server
  | executeCqlQuery query compression =>
      have hreads := Method.process_send (processMap_executeCqlQuery iface others) hcarried.1 server
      rwa [show (executeCqlQuery R).args.overlay (executeCqlQuery R).freshArgs
        ⟨query, compression⟩ = ⟨query, compression⟩
        from executeCqlQueryArgs_overlay R ⟨query, compression⟩] at hreads

theorem recv_replyTo (server : Server) {call : Call} (hcarried : Carried R iface call) :
    Reads (recv R call) (replyTo R iface server call)
      (deliver R iface call (direct iface server call).1) := by
  cases call with
  | login request =>
      exact recvOf_reads (Method.recv_reply (hcarried.2 server) 0)
        (login_outcome request (iface.login request server).1) fun _ => rfl
  | setKeyspace keyspace =>
      exact recvOf_reads (Method.recv_reply (hcarried.2 server) 0)
        (setKeyspace_outcome keyspace (iface.setKeyspace keyspace server).1) fun _ => rfl
  | describeKeyspace keyspace =>
      exact recvOf_reads (Method.recv_reply (hcarried.2 server) 0)
        (describeKeyspace_outcome keyspace (iface.describeKeyspace keyspace server).1) fun _ => rfl
  | describeVersion =>
      exact recvOf_reads (Method.recv_reply (hcarried server) 0)
        (describeVersion_outcome (iface.describeVersion server).1) fun _ => rfl
  | executeCqlQuery query compression =>
      exact recvOf_reads (Method.recv_reply (hcarried.2 server) 0)
        (executeCqlQuery_outcome query compression
          (iface.executeCqlQuery query compression server).1) fun _ => rfl

/-- A call is not processed before its last byte is there. -/
theorem process_call_awaits (server : Server) {call : Call} (hcarried : Carried R iface call) :
    Awaits (process R (processMap R iface others) server) (send R call) := by
  cases call with
  | login request =>
      exact Method.process_awaits (processMap_login iface others) hcarried.1 server
  | setKeyspace keyspace =>
      exact Method.process_awaits (processMap_setKeyspace iface others) hcarried.1 server
  | describeKeyspace keyspace =>
      exact Method.process_awaits (processMap_describeKeyspace iface others) hcarried.1 server
  | describeVersion =>
      have hfits : (describeVersion R).args.Fits {} := fun _ hmem => nomatch hmem
      exact Method.process_awaits (processMap_describeVersion iface others) hfits server
  | executeCqlQuery query compression =>
      exact Method.process_awaits (processMap_executeCqlQuery iface others) hcarried.1 server

theorem recv_consumes (call : Call) : Consumes (recv R call) := by
  have hmethod : ∀ {Args Result Returned : Type} {method : Method R Args Result}
      {accept : Result → Except TException Returned} {value : Returned → Value},
      Consumes (recvOf R method accept value) :=
    (Method.recv_consumes _).bind fun _ => Consumes.pure _
  cases call <;> exact hmethod

theorem recv_nil (call : Call) (outcome : Except TException Value × Bytes) :
    recv R call [] ≠ .ok outcome := by
  have hnil : ∀ {Args Result Returned : Type} {method : Method R Args Result}
      {accept : Result → Except TException Returned} {value : Returned → Value},
      recvOf R method accept value [] ≠ .ok outcome := by
    intro Args Result Returned method accept value
    rw [recvOf, Method.recv, bind_assoc]
    exact (R.read_progresses .messageBegin).bind_nil_ne_ok outcome
  cases call <;> exact hnil

/-- A reply under another name is passed over by any of the calls. -/
theorem recv_otherName {call : Call} {header : MessageHeader} {body : Bytes}
    (hfits : Datum.Fits .messageBegin header) (htype : header.type = .reply)
    (hname : header.name ≠ nameOf R call)
    (hbody : Spells R.toEncoding (.value .struct) body) (rest : Bytes) :
    recv R call (R.write .messageBegin header ++ (body ++ rest)) =
      readResult R call rest := by
  have hmethod : ∀ {Args Result Returned : Type} {method : Method R Args Result}
      {accept : Result → Except TException Returned} {value : Returned → Value},
      header.name ≠ method.name →
      recvOf R method accept value (R.write .messageBegin header ++ (body ++ rest)) =
        resultOf R method accept value rest := by
    intro Args Result Returned method accept value hother
    exact bind_congr (Method.recv_otherName hfits htype hother hbody rest)
  cases call <;> exact hmethod hname

theorem readResult_nil (call : Call) (outcome : Except TException Value × Bytes) :
    readResult R call [] ≠ .ok outcome := by
  have hmethod : ∀ {Args Result Returned : Type} {method : Method R Args Result}
      {accept : Result → Except TException Returned} {value : Returned → Value},
      resultOf R method accept value [] ≠ .ok outcome := by
    intro Args Result Returned method accept value hread
    cases hresult : method.readResult [] with
    | error failure =>
        rw [resultOf, bind_error hresult] at hread
        cases hread
    | ok result => exact method.readResult_nil result hresult
  cases call <;> exact hmethod

/-- An application exception is taken by any of the calls, under any name. -/
theorem recv_exception (call : Call) {header : MessageHeader}
    (hname : header.name.length < Datum.sizeLimit) (htype : header.type = .exception)
    {e : ApplicationException} (he : e.message.length < Datum.sizeLimit) :
    Reads (recv R call) (R.write .messageBegin header ++ R.writeException e)
      (.error (.application (R.what e))) := by
  have hmethod : ∀ {Args Result Returned : Type} {method : Method R Args Result}
      {accept : Result → Except TException Returned} {value : Returned → Value},
      Reads (recvOf R method accept value)
        (R.write .messageBegin header ++ R.writeException e)
        (.error (.application (R.what e))) :=
    (Method.recv_exception hname htype he).bind_pure _
  cases call <;> exact hmethod

/-- The client and the processor, with the handler in between. -/
def exchange (R : Runtime) (iface : Iface Server) (others : ProcessMap Server) :
    Exchange Call (Except TException Value) Server where
  send := send R
  process := process R (processMap R iface others)
  recv := recv R
  answer server call :=
    (deliver R iface call (direct iface server call).1, (direct iface server call).2)
  reply := replyTo R iface
  Carried := Carried R iface
  process_send server _ hcarried := process_call others server hcarried
  recv_reply server _ hcarried := recv_replyTo server hcarried
  process_awaits server _ hcarried := process_call_awaits others server hcarried
  recv_awaits server call hcarried :=
    Awaits.of_reads (recv_consumes call) (recv_replyTo server hcarried)
  process_nil := process_nil _
  recv_nil := recv_nil

end PdoCassandra.Thrift.Session
