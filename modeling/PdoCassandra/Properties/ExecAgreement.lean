import PdoCassandra.Driver.Statement

/-!
# `PDO::exec` against prepare and execute

Execute needs the schema of the current keyspace before it looks at the query, and
it returns its failure status from a `USE` that went through.  The doer's failure
status is also the count of an `INT` result of `-1`.
-/

namespace PdoCassandra.Properties.ExecAgreement

open PdoCassandra.Foundation.CString
open PdoCassandra.Driver
open PdoCassandra.Driver.CqlParser
open PdoCassandra.Thrift

/-- Both succeed with one count, or both return their failure status. -/
def SameReport (exec execute : Exit) (rowCount : Int) : Prop :=
  (∃ count, exec = .ret count ∧ count ≠ -1 ∧ execute = .ret 1 ∧ rowCount = count) ∨
    exec = .ret (-1) ∧ ∃ status, execute = .ret status ∧ status ≠ 1

/-- The two ways to run a query have one outcome. -/
def Agree (conn : Conn) (sql : Query) (replies : Replies) : Prop :=
  let exec := cassandraHandleDoer conn sql replies
  let execute := pdoCassandraStmtExecute conn cassandraHandlePreparer sql replies
  SameReport exec.1.exit execute.1.exit execute.2.2.rowCount ∧
    exec.2.H.keyspace = execute.2.1.H.keyspace ∧
    exec.2.server.keyspace = execute.2.1.server.keyspace

/-! ## The conditions -/

/-- The server refuses the call that the query leads to. -/
def Refuses (sql : Query) (replies : Replies) : Prop :=
  match useTarget sql with
  | some _ => ∃ why, recvSetKeyspace replies.setKeyspace = .error (.invalidRequest why)
  | none =>
      ∃ why, recvExecuteCqlQuery replies.executeCqlQuery = .error (.invalidRequest why)

/-- The query is sent, and the server answers it. -/
def Answers (sql : Query) (replies : Replies) (result : CqlResult) : Prop :=
  useTarget sql = none ∧ recvExecuteCqlQuery replies.executeCqlQuery = .ok result

/-- The count of the result is the doer's failure status. -/
def CountsMinusOne (result : CqlResult) : Prop :=
  result.type = .int ∧ result.num = -1

def AgreeWhen (conn : Conn) (sql : Query) (replies : Replies) : Prop :=
  (Described conn.H replies ∧ scanColumnfamily sql.memory ≠ none ∧
      (Refuses sql replies ∨
        ∃ result, Answers sql replies result ∧ ¬ CountsMinusOne result)) ∨
    (conn.H.ksDefs conn.H.keyspace = none ∧
      (∃ why, recvDescribeKeyspace replies.describeKeyspace =
        .error (.invalidRequest why)) ∧
      (Refuses sql replies ∨
        ∃ result, Answers sql replies result ∧ CountsMinusOne result ∧
          ∀ keyspace, conn.server.cqlUse sql.text = some keyspace →
            keyspace = conn.server.keyspace))

/-! ## The results -/

/-- The doer's failure status as a count. -/
theorem affectedRows_eq_neg_one_iff (result : CqlResult) :
    affectedRows result = -1 ↔ CountsMinusOne result := by
  unfold affectedRows CountsMinusOne
  cases result.type with
  | rows => simp
  | int => simp
  | void => simp
  | other code => simp

/-- On a fresh statement, the row count is what the doer would return. -/
theorem setResult_rowCount (cf : Option Bytes) (result : CqlResult) :
    ((cassandraHandlePreparer.setColumnFamily cf).setResult result).rowCount =
      affectedRows result := by
  unfold Stmt.setResult affectedRows
  cases result.type <;> rfl

theorem sameReport_answered (result : CqlResult) :
    SameReport (.ret (affectedRows result)) (.ret 1) (affectedRows result) ↔
      ¬ CountsMinusOne result := by
  rw [← affectedRows_eq_neg_one_iff]
  simp [SameReport]

theorem not_sameReport_fault {exec : Exit} {why : Fault} {rowCount : Int} :
    ¬ SameReport exec (.fault why) rowCount := by
  simp [SameReport]

/-- Two handlers of `InvalidRequestException`. -/
theorem sameReport_catch (e : TException) (rowCount : Int) :
    SameReport (catchInvalidRequest (-1) e).exit (catchInvalidRequest 0 e).exit rowCount ↔
      ∃ why, e = .invalidRequest why := by
  cases e <;> simp [SameReport, catchInvalidRequest]

theorem sameReport_describeRaised (exec : Exit) (e : TException) (rowCount : Int) :
    SameReport exec (catchInvalidRequest 0 e).exit rowCount ↔
      exec = .ret (-1) ∧ ∃ why, e = .invalidRequest why := by
  cases e <;> simp [SameReport, catchInvalidRequest]

/-! ## The two runs -/

/-- With the schema at hand, the two make the same client call. -/
theorem agree_of_cache {conn : Conn} {sql : Query} {replies : Replies}
    {cached : DbHandle} {found : Scan}
    (hcache : cacheKeyspace conn.H replies = .ok cached)
    (hscan : scanColumnfamily sql.memory = some found) :
    Agree conn sql replies ↔
      Refuses sql replies ∨
        ∃ result, Answers sql replies result ∧ ¬ CountsMinusOne result := by
  obtain ⟨reads, hkeyspace⟩ := scanKeyspace_memory sql
  obtain ⟨copied, hcopy⟩ := scanKeyspace_memory sql.estrdup
  rw [useTarget_estrdup] at hcopy
  have hkept := cacheKeyspace_keyspace hcache
  cases huse : useTarget sql with
  | some keyspace =>
      rw [huse] at hkeyspace hcopy
      cases hset : recvSetKeyspace replies.setKeyspace with
      | ok _ =>
          simp [Agree, cassandraHandleDoer, pdoCassandraStmtExecute, hcache, hscan,
            hkeyspace, hcopy, Server.setKeyspace, hset, SameReport, Refuses, Answers,
            huse]
      | error e =>
          simp [Agree, cassandraHandleDoer, pdoCassandraStmtExecute, hcache, hscan,
            hkeyspace, hcopy, Server.setKeyspace, hset, sameReport_catch, hkept,
            Refuses, Answers, huse]
  | none =>
      rw [huse] at hkeyspace hcopy
      cases hquery : recvExecuteCqlQuery replies.executeCqlQuery with
      | ok result =>
          simp [Agree, cassandraHandleDoer, pdoCassandraStmtExecute, hcache, hscan,
            hkeyspace, hcopy, Server.executeCqlQuery, hquery, setResult_rowCount,
            sameReport_answered, hkept, Refuses, Answers, huse]
      | error e =>
          simp [Agree, cassandraHandleDoer, pdoCassandraStmtExecute, hcache, hscan,
            hkeyspace, hcopy, Server.executeCqlQuery, hquery, sameReport_catch, hkept,
            Refuses, Answers, huse]

/-- Without a schema, execute fails before it looks at the query. -/
theorem agree_of_describeRaised {conn : Conn} {sql : Query} {replies : Replies}
    {e : TException} (hcache : cacheKeyspace conn.H replies = .error e) :
    Agree conn sql replies ↔
      (∃ why, e = .invalidRequest why) ∧
        (Refuses sql replies ∨
          ∃ result, Answers sql replies result ∧ CountsMinusOne result ∧
            ∀ keyspace, conn.server.cqlUse sql.text = some keyspace →
              keyspace = conn.server.keyspace) := by
  have hexecute :
      pdoCassandraStmtExecute conn cassandraHandlePreparer sql replies =
        (catchInvalidRequest 0 e, conn, cassandraHandlePreparer) := by
    simp only [pdoCassandraStmtExecute, hcache]
  simp only [Agree, hexecute, sameReport_describeRaised]
  cases hcall : cassandraHandleDoer conn sql replies with
  | mk outcome after =>
      cases cassandraHandleDoer_exit hcall with
      | used huse hset =>
          simp [Refuses, Answers, huse, hset]
      | useRaised huse hset =>
          simp [Refuses, Answers, huse, hset, catchInvalidRequest_exit_ret, and_comm]
      | @queried result huse hquery =>
          have hsession : (conn.server.cqlUse sql.text).getD conn.server.keyspace =
                conn.server.keyspace ↔
              ∀ keyspace, conn.server.cqlUse sql.text = some keyspace →
                keyspace = conn.server.keyspace := by
            cases conn.server.cqlUse sql.text <;> simp
          simp [Refuses, Answers, huse, hquery, affectedRows_eq_neg_one_iff, hsession,
            and_left_comm, and_assoc]
      | queryRaised huse hquery =>
          simp [Refuses, Answers, huse, hquery, catchInvalidRequest_exit_ret, and_comm]

/--
When `exec` and prepare with execute agree: the query is no `USE` that goes
through, and execute fails to get the schema only where the doer fails as well.
-/
theorem agree_iff (conn : Conn) (sql : Query) (replies : Replies) :
    Agree conn sql replies ↔ AgreeWhen conn sql replies := by
  unfold AgreeWhen
  cases hcache : cacheKeyspace conn.H replies with
  | error e =>
      obtain ⟨hmissing, hdescribe⟩ := cacheKeyspace_error.mp hcache
      rw [agree_of_describeRaised hcache]
      simp [Described, hmissing, hdescribe]
  | ok cached =>
      have hdescribed : Described conn.H replies :=
        (described_iff _ _).mpr ⟨cached, hcache⟩
      have hnotRefused : ¬ (conn.H.ksDefs conn.H.keyspace = none ∧
          ∃ why, recvDescribeKeyspace replies.describeKeyspace =
            .error (.invalidRequest why)) := by
        rintro ⟨hmissing, why, hrefused⟩
        obtain ⟨ksdef, hdescribe⟩ := hdescribed hmissing
        rw [hrefused] at hdescribe
        cases hdescribe
      rw [← and_assoc (a := conn.H.ksDefs conn.H.keyspace = none)]
      cases hscan : scanColumnfamily sql.memory with
      | none =>
          have hfault : ¬ Agree conn sql replies := by
            simp [Agree, pdoCassandraStmtExecute, hcache, hscan, not_sameReport_fault]
          simp [hfault, hnotRefused]
      | some found =>
          rw [agree_of_cache hcache hscan]
          simp [hdescribed, hnotRefused]

/-- A `USE` that goes through: the doer succeeds and execute returns `0`. -/
theorem not_agree_use :
    ¬ Agree ⟨⟨[], fun _ => some ⟨[], []⟩⟩, ⟨[], fun _ => none, fun _ => none⟩⟩
      ⟨bytesOf "USE ks", [], by decide, by decide⟩ {} := by
  rintro ⟨hreport, -⟩
  have hexec : (cassandraHandleDoer
      ⟨⟨[], fun _ => some ⟨[], []⟩⟩, ⟨[], fun _ => none, fun _ => none⟩⟩
      ⟨bytesOf "USE ks", [], by decide, by decide⟩ {}).1.exit = .ret 0 := by decide
  have hexecute : (pdoCassandraStmtExecute
      ⟨⟨[], fun _ => some ⟨[], []⟩⟩, ⟨[], fun _ => none, fun _ => none⟩⟩ cassandraHandlePreparer
      ⟨bytesOf "USE ks", [], by decide, by decide⟩ {}).1.exit = .ret 0 := by decide
  rw [hexec, hexecute] at hreport
  simp [SameReport] at hreport

end PdoCassandra.Properties.ExecAgreement
