import PdoCassandra.Driver.Statement

/-!
# Which remote failures reach PDO

The doer and execute catch `InvalidRequestException` alone, the factory three
classes, and the attribute reader none.  What the `recv_` functions may raise
beyond that passes through as a C++ exception.
-/

namespace PdoCassandra.Properties.RemoteFailures

open PdoCassandra.Foundation.CString
open PdoCassandra.Driver
open PdoCassandra.Driver.CqlParser
open PdoCassandra.Thrift

/-- The method returns to PDO, with an exception set if a client call raised. -/
def Contained (outcome : Outcome) : Prop :=
  (∃ value, outcome.exit = .ret value) ∧
    (outcome.raised ≠ none → outcome.thrown ≠ none)

/-- In addition, the method returns its failure status if a client call raised. -/
def Reported (failure : Int) (outcome : Outcome) : Prop :=
  Contained outcome ∧ (outcome.raised ≠ none → outcome.exit = .ret failure)

/-- A client call raises nothing but `InvalidRequestException`. -/
def OnlyInvalidRequest {Value : Type} (result : Except TException Value) : Prop :=
  ∀ e, result = .error e → ∃ why, e = .invalidRequest why

theorem onlyInvalidRequest_ok {Value : Type} (value : Value) :
    OnlyInvalidRequest (.ok value) := by
  intro e herror
  cases herror

theorem onlyInvalidRequest_error {Value : Type} (e : TException) :
    OnlyInvalidRequest (.error e : Except TException Value) ↔
      ∃ why, e = .invalidRequest why := by
  constructor
  · intro honly
    exact honly e rfl
  · rintro hwhy raised ⟨⟩
    exact hwhy

/-- A return behind calls that did not raise. -/
theorem reported_ret (failure value : Int) :
    Reported failure { exit := .ret value } :=
  ⟨⟨⟨value, rfl⟩, fun hraised => absurd rfl hraised⟩, fun hraised => absurd rfl hraised⟩

/-- The handler shared by the doer and execute. -/
theorem reported_catchInvalidRequest_iff (failure : Int) (e : TException) :
    Reported failure (catchInvalidRequest failure e) ↔ ∃ why, e = .invalidRequest why := by
  cases e <;> simp [Reported, Contained, catchInvalidRequest]

/-! ## The factory -/

/-- The factory gets to its `login` call. -/
def LogsIn (vars : DataSource) (credentials : Credentials) (replies : Replies) : Prop :=
  vars.host ≠ none ∧ replies.openTransport = none ∧
    credentials.username ≠ none ∧ credentials.password ≠ none

/-- The refusals that `login` raises. -/
def Refused (replies : Replies) : Prop :=
  ∃ why, recvLogin replies.login = .error (.authentication why) ∨
    recvLogin replies.login = .error (.authorization why)

/-- The exceptions of the factory's three handlers. -/
theorem reported_catchConnect_iff (e : TException) :
    Reported 0 (catchConnect e) ↔ e.isChannel = true ∨ ∃ why, e = .invalidRequest why := by
  cases e <;> simp [Reported, Contained, catchConnect, TException.isChannel]

/-- What `connect` raises is caught, unless `login` is called and refuses. -/
theorem connect_error {vars : DataSource} {credentials : Credentials} {conn : Conn}
    {replies : Replies} {e : TException}
    (herror : connect vars credentials conn replies = .error e) :
    (e.isChannel = true ∨ ∃ why, e = .invalidRequest why) ∨
      replies.openTransport = none ∧ credentials.username ≠ none ∧
        credentials.password ≠ none ∧ Refused replies := by
  unfold connect at herror
  cases hopen : replies.openTransport with
  | some what =>
      simp only [hopen, Except.error.injEq] at herror
      subst herror
      exact Or.inl (Or.inl rfl)
  | none =>
      simp only [hopen] at herror
      split at herror
      · rename_i raised hlogin
        cases herror
        split at hlogin
        · rename_i hgiven
          simp only [Bool.and_eq_true, Option.isSome_iff_ne_none] at hgiven
          obtain hchannel | ⟨why, rfl⟩ | ⟨why, rfl⟩ := recvLogin_error hlogin
          · exact Or.inl (Or.inl hchannel)
          · exact Or.inr ⟨rfl, hgiven.1, hgiven.2, why, Or.inl hlogin⟩
          · exact Or.inr ⟨rfl, hgiven.1, hgiven.2, why, Or.inr hlogin⟩
        · cases hlogin
      · cases hkeyspace : vars.keyspace with
        | none => simp [hkeyspace] at herror
        | some keyspace =>
            simp only [hkeyspace, Server.setKeyspace] at herror
            cases hset : recvSetKeyspace replies.setKeyspace with
            | ok _ => simp [hset] at herror
            | error raised =>
                simp only [hset, Except.error.injEq] at herror
                subst herror
                exact Or.inl (recvSetKeyspace_error hset)

/-- A refusal of `login` is raised by `connect`, and is none that is caught. -/
theorem connect_refused {vars : DataSource} {credentials : Credentials}
    {replies : Replies} (hlogs : LogsIn vars credentials replies)
    (hrefused : Refused replies) (conn : Conn) :
    ∃ e, connect vars credentials conn replies = .error e ∧
      ¬ (e.isChannel = true ∨ ∃ why, e = .invalidRequest why) := by
  obtain ⟨-, hopen, husername, hpassword⟩ := hlogs
  have hraised {e : TException} (hlogin : recvLogin replies.login = .error e) :
      connect vars credentials conn replies = .error e := by
    simp [connect, hopen, Option.isSome_iff_ne_none, husername, hpassword, hlogin]
  obtain ⟨why, hlogin | hlogin⟩ := hrefused
  · exact ⟨_, hraised hlogin, by simp [TException.isChannel]⟩
  · exact ⟨_, hraised hlogin, by simp [TException.isChannel]⟩

theorem reported_factory_iff (vars : DataSource) (credentials : Credentials)
    (server : Server) (replies : Replies) :
    Reported 0 (pdoCassandraHandleFactory vars credentials server replies).1 ↔
      ¬ (LogsIn vars credentials replies ∧ Refused replies) := by
  unfold pdoCassandraHandleFactory
  cases hhost : vars.host with
  | none =>
      simp [Reported, Contained, LogsIn, hhost]
  | some host =>
      simp only
      cases hconnect : connect vars credentials (newConn server) replies with
      | error e =>
          simp only [reported_catchConnect_iff]
          constructor
          · rintro hcaught ⟨hlogs, hrefused⟩
            obtain ⟨raised, hraised, hescapes⟩ :=
              connect_refused hlogs hrefused (newConn server)
            rw [hconnect] at hraised
            cases hraised
            exact hescapes hcaught
          · intro hnot
            obtain hcaught | ⟨hopen, husername, hpassword, hrefused⟩ :=
              connect_error hconnect
            · exact hcaught
            · refine absurd ⟨⟨?_, hopen, husername, hpassword⟩, hrefused⟩ hnot
              simp [hhost]
      | ok conn =>
          apply iff_of_true (reported_ret 0 1)
          rintro ⟨hlogs, hrefused⟩
          obtain ⟨raised, hraised, -⟩ := connect_refused hlogs hrefused (newConn server)
          rw [hconnect] at hraised
          cases hraised

/-! ## The doer and execute -/

/-- The client calls behind the scanners raise nothing but `InvalidRequestException`. -/
def CallsCaught (query : Query) (replies : Replies) : Prop :=
  match useTarget query with
  | some _ => OnlyInvalidRequest (recvSetKeyspace replies.setKeyspace)
  | none => OnlyInvalidRequest (recvExecuteCqlQuery replies.executeCqlQuery)

theorem callsCaught_of_use {query : Query} {replies : Replies} {keyspace : Bytes}
    (huse : useTarget query = some keyspace) :
    CallsCaught query replies ↔
      OnlyInvalidRequest (recvSetKeyspace replies.setKeyspace) := by
  simp only [CallsCaught, huse]

theorem callsCaught_of_query {query : Query} {replies : Replies}
    (huse : useTarget query = none) :
    CallsCaught query replies ↔
      OnlyInvalidRequest (recvExecuteCqlQuery replies.executeCqlQuery) := by
  simp only [CallsCaught, huse]

theorem reported_doer_iff (conn : Conn) (sql : Query) (replies : Replies) :
    Reported (-1) (cassandraHandleDoer conn sql replies).1 ↔ CallsCaught sql replies := by
  cases hcall : cassandraHandleDoer conn sql replies with
  | mk outcome after =>
      cases cassandraHandleDoer_exit hcall with
      | used huse hset =>
          rw [callsCaught_of_use huse, hset]
          exact iff_of_true (reported_ret _ _) (onlyInvalidRequest_ok _)
      | useRaised huse hset =>
          rw [callsCaught_of_use huse, hset, onlyInvalidRequest_error]
          exact reported_catchInvalidRequest_iff _ _
      | queried huse hquery =>
          rw [callsCaught_of_query huse, hquery]
          exact iff_of_true (reported_ret _ _) (onlyInvalidRequest_ok _)
      | queryRaised huse hquery =>
          rw [callsCaught_of_query huse, hquery, onlyInvalidRequest_error]
          exact reported_catchInvalidRequest_iff _ _

/--
What `describe_keyspace` raises, if it is called, is caught; with the schema at
hand, the column family scanner stays inside the memory it is given and what the
later call raises is caught.
-/
def ExecuteCaught (H : DbHandle) (query : Query) (replies : Replies) : Prop :=
  (H.ksDefs H.keyspace = none →
      OnlyInvalidRequest (recvDescribeKeyspace replies.describeKeyspace)) ∧
    (Described H replies →
      scanColumnfamily query.memory ≠ none ∧ CallsCaught query replies)

/-- Once the schema is at hand, the scanner and the later calls decide. -/
theorem executeCaught_of_cache {H cached : DbHandle} {query : Query} {replies : Replies}
    (hcache : cacheKeyspace H replies = .ok cached) :
    ExecuteCaught H query replies ↔
      scanColumnfamily query.memory ≠ none ∧ CallsCaught query replies := by
  have hdescribed : Described H replies := (described_iff H replies).mpr ⟨cached, hcache⟩
  constructor
  · intro hcaught
    exact hcaught.2 hdescribed
  · intro hlater
    refine ⟨fun hmissing => ?_, fun _ => hlater⟩
    obtain ⟨ksdef, hdescribe⟩ := hdescribed hmissing
    rw [hdescribe]
    exact onlyInvalidRequest_ok ksdef

theorem executeCaught_of_found {H cached : DbHandle} {query : Query} {replies : Replies}
    {found : CqlParser.Scan} (hcache : cacheKeyspace H replies = .ok cached)
    (hscan : scanColumnfamily query.memory = some found) :
    ExecuteCaught H query replies ↔ CallsCaught query replies := by
  rw [executeCaught_of_cache hcache, hscan]
  simp

theorem reported_execute_iff (conn : Conn) (stmt : Stmt) (query : Query)
    (replies : Replies) :
    Reported 0 (pdoCassandraStmtExecute conn stmt query replies).1 ↔
      ExecuteCaught conn.H query replies := by
  rcases hcall : pdoCassandraStmtExecute conn stmt query replies with
    ⟨outcome, after, left⟩
  cases pdoCassandraStmtExecute_exit hcall with
  | @describeRaised e hcache =>
      obtain ⟨hmissing, hdescribe⟩ := cacheKeyspace_error.mp hcache
      rw [reported_catchInvalidRequest_iff]
      unfold ExecuteCaught Described
      simp [hmissing, hdescribe, onlyInvalidRequest_error]
  | overrun hcache hscan =>
      rw [executeCaught_of_cache hcache]
      refine iff_of_false ?_ fun hlater => hlater.1 hscan
      rintro ⟨⟨⟨value, hret⟩, -⟩, -⟩
      cases hret
  | used hcache hscan huse hset =>
      rw [executeCaught_of_found hcache hscan, callsCaught_of_use huse, hset]
      exact iff_of_true (reported_ret _ _) (onlyInvalidRequest_ok _)
  | useRaised hcache hscan huse hset =>
      rw [executeCaught_of_found hcache hscan, callsCaught_of_use huse, hset,
        onlyInvalidRequest_error]
      exact reported_catchInvalidRequest_iff _ _
  | queried hcache hscan huse hquery =>
      rw [executeCaught_of_found hcache hscan, callsCaught_of_query huse, hquery]
      exact iff_of_true (reported_ret _ _) (onlyInvalidRequest_ok _)
  | queryRaised hcache hscan huse hquery =>
      rw [executeCaught_of_found hcache hscan, callsCaught_of_query huse, hquery,
        onlyInvalidRequest_error]
      exact reported_catchInvalidRequest_iff _ _

/-! ## The attribute reader -/

theorem contained_getAttribute_iff (attr : Attribute) (replies : Replies) :
    Contained (pdoCassandraGetAttribute attr replies).1 ↔
      attr = .serverVersion →
        ∃ version, recvDescribeVersion replies.describeVersion = .ok version := by
  unfold pdoCassandraGetAttribute
  cases attr with
  | serverVersion =>
      cases recvDescribeVersion replies.describeVersion with
      | error e => simp [Contained]
      | ok version => simp [Contained]
  | other attr => simp [Contained]

/-! ## The four entry points -/

/--
Which remote failures are turned into a PDO exception: all but the refusals of
`login`, all but what is no `InvalidRequestException`, and none.
-/
theorem reported_iff (vars : DataSource) (credentials : Credentials) (server : Server)
    (conn : Conn) (stmt : Stmt) (query : Query) (attr : Attribute) (replies : Replies) :
    (Reported 0 (pdoCassandraHandleFactory vars credentials server replies).1 ↔
      ¬ (LogsIn vars credentials replies ∧ Refused replies)) ∧
    (Reported (-1) (cassandraHandleDoer conn query replies).1 ↔
      CallsCaught query replies) ∧
    (Reported 0 (pdoCassandraStmtExecute conn stmt query replies).1 ↔
      ExecuteCaught conn.H query replies) ∧
    (Contained (pdoCassandraGetAttribute attr replies).1 ↔
      attr = .serverVersion →
        ∃ version, recvDescribeVersion replies.describeVersion = .ok version) :=
  ⟨reported_factory_iff vars credentials server replies,
    reported_doer_iff conn query replies, reported_execute_iff conn stmt query replies,
    contained_getAttribute_iff attr replies⟩

/-- A `TimedOutException` leaves the doer as a C++ exception. -/
theorem not_reported_timedOut :
    ¬ Reported (-1) (cassandraHandleDoer (newConn bareServer)
      ⟨bytesOf "SELECT a FROM t", [], by decide, by decide⟩
      { executeCqlQuery := .message { te := true } }).1 := by
  unfold Reported Contained
  rintro ⟨⟨⟨value, hret⟩, -⟩, -⟩
  have hescape : (cassandraHandleDoer (newConn bareServer)
      ⟨bytesOf "SELECT a FROM t", [], by decide, by decide⟩
      { executeCqlQuery := .message { te := true } }).1.exit = .escape .timedOut := by
    decide
  rw [hescape] at hret
  cases hret

end PdoCassandra.Properties.RemoteFailures
