import PdoCassandra.Driver.Pdo
import PdoCassandra.Foundation.Memory

/-!
# The objects of a handle

A handle has a string, a map and a client; a statement has a string, and a pointer to
a result.  Each execute makes a `CqlResult`, and stores it in the statement only when it
is answered with rows.  A variable that is prepared again gives up the statement that it
had; PDO closes a handle behind all of its statements.
-/

namespace PdoCassandra.Driver

open PdoCassandra.Foundation
open PdoCassandra.Foundation.CString
open PdoCassandra.Driver.CqlParser
open PdoCassandra.Thrift

/-- What `execute_cql_query` leaves in the object, when execute gets there and it returns. -/
def executeResult (conn : Conn) (query : Query) (replies : Replies) : Option CqlResult :=
  match cacheKeyspace conn.H replies, scanColumnfamily query.memory,
    useTarget query, recvExecuteCqlQuery replies.executeCqlQuery with
  | .ok _, some _, none, .ok result => some result
  | _, _, _, _ => none

/-- What has a pointer: members of the handle, and of each statement. -/
inductive Holder where
  | keyspace
  | ksDefs
  | client
  | columnFamily (i : Nat)
  | result (i : Nat)
  deriving DecidableEq

/-- What `new` makes; a result object with what a query leaves in it. -/
inductive Object where
  | keyspace
  | ksDefs
  | client
  | columnFamily
  | result (left : Option CqlResult)

abbrev Objects := Holdings Holder Object

/-- `pdo_cassandra_handle_factory`, in which the client is made behind `open`. -/
def factoryObjects (vars : DataSource) (replies : Replies) : Objects :=
  let allocated := (({} : Objects).store .keyspace .keyspace).store .ksDefs .ksDefs
  match vars.host, replies.openTransport with
  | some _, none => allocated.store .client .client
  | _, _ => allocated

/-- `pdo_cassandra_stmt_dtor`. -/
def pdoCassandraStmtDtor (i : Nat) (objects : Objects) : Option Objects :=
  objects.releaseAll [.result i, .columnFamily i]

/-- The handle and its statements, with their objects. -/
structure Owner where
  system : System
  objects : Objects

/-- The objects behind an execute. -/
def Owner.execute (owner : Owner) (system : System) (i : Nat) (query : Query)
    (replies : Replies) : Owner where
  system := system
  objects :=
    let made : Object := .result (executeResult owner.system.conn query replies)
    if answeredWithRows owner.system.conn (.execute query replies) then
      owner.objects.store (.result i) made
    else owner.objects.drop made

/-- The objects behind a call, with the handle and the statements given. -/
def Owner.after (owner : Owner) (system : System) : Call → Option Owner
  | .prepare i =>
      (pdoCassandraStmtDtor i owner.objects).map fun objects =>
        ⟨system, objects.store (.columnFamily i) .columnFamily⟩
  | .stmt i (.execute query replies) => some (owner.execute system i query replies)
  | _ => some { owner with system }

/-- A call of the program; a `delete` of what is not there ends the run. -/
def Owner.next (unparse : Bytes → Bytes) (owner : Owner) (call : Call) : Option Owner :=
  (owner.system.next unparse call).bind fun system => owner.after system call

/-! ## What the calls do to a stored result -/

theorem executeResult_of_rows {conn : Conn} {query : Query} {replies : Replies}
    (hrows : answeredWithRows conn (.execute query replies) = true) :
    ∃ result, recvExecuteCqlQuery replies.executeCqlQuery = .ok result ∧
      executeResult conn query replies = some result := by
  obtain ⟨H, found, result, hcache, hscan, huse, hquery, -⟩ := answeredWithRows_iff.mp hrows
  exact ⟨result, hquery, by simp only [executeResult, hcache, hscan, huse, hquery]⟩

section

variable (unparse : Bytes → Bytes)

/-- Only execute stores a result. -/
theorem Stmt.call_result (conn : Conn) (stmt : Stmt) {call : StmtCall}
    (hcall : ∀ query replies, call ≠ .execute query replies) :
    (stmt.call unparse conn call).stmt.result = stmt.result := by
  cases call with
  | execute query replies => exact absurd rfl (hcall query replies)
  | fetch =>
      simp only [Stmt.call]
      rcases hfetch : pdoCassandraStmtFetch stmt with ⟨exit, left⟩
      cases pdoCassandraStmtFetch_exit hfetch with
      | nullResult | exhausted | undescribed | fetched => rfl
  | allocColumns =>
      have hreads : StmtCall.allocColumns.readsRow = true := rfl
      obtain ⟨columns, hframe⟩ := stmt.call_frame unparse conn hreads
      rw [hframe]
  | describe colno heap =>
      have hreads : (StmtCall.describe colno heap).readsRow = true := rfl
      obtain ⟨columns, hframe⟩ := stmt.call_frame unparse conn hreads
      rw [hframe]
  | getCol colno heap => rfl

theorem StmtCall.ne_execute {call : StmtCall}
    (hcall : call = .fetch ∨ call.readsRow = true) :
    ∀ query replies, call ≠ .execute query replies := by
  rintro query replies rfl
  rcases hcall with hfetch | hreads
  · cases hfetch
  · cases hreads

theorem System.effect_result (system : System) (i j : Nat) (call : StmtCall)
    (hcall : call = .fetch ∨ call.readsRow = true) :
    (system.stmtAfter unparse i (.stmt j call)).result = (system.stmts i).result := by
  simp only [System.stmtAfter]
  split
  · exact Stmt.call_result unparse system.conn (system.stmts i) (StmtCall.ne_execute hcall)
  · rfl

/-- The result of a statement behind a call of the program. -/
def System.resultAfter (system : System) (i : Nat) : Call → Option CqlResult
  | .prepare j => if i = j then none else (system.stmts i).result
  | .stmt j (.execute query replies) =>
      if i = j ∧ answeredWithRows system.conn (.execute query replies) = true then
        executeResult system.conn query replies
      else (system.stmts i).result
  | _ => (system.stmts i).result

theorem System.next_result {system next : System} {call : Call}
    (hnext : system.next unparse call = some next) (i : Nat) :
    (next.stmts i).result = system.resultAfter i call := by
  rw [System.next_stmts unparse hnext i]
  cases call with
  | exec sql replies => rfl
  | prepare j =>
      simp only [System.stmtAfter, System.resultAfter]
      split
      · rfl
      · rfl
  | stmt j call =>
      cases call with
      | execute query replies =>
          simp only [System.stmtAfter, System.resultAfter]
          by_cases hsame : i = j
          · simp only [hsame, if_true, true_and]
            split
            · rename_i hrows
              obtain ⟨result, hquery, hresult⟩ := executeResult_of_rows hrows
              obtain ⟨stored, hstored, hstmt⟩ :=
                Stmt.call_execute_rows unparse system.conn (system.stmts j) hrows
              rw [hquery, Except.ok.injEq] at hstored
              rw [hresult, hstored]
              exact hstmt
            · rename_i hrows
              exact (Stmt.call_execute_kept unparse system.conn (system.stmts j)
                (Bool.eq_false_iff.mpr hrows)).1
          · simp only [hsame, if_false, false_and]
      | fetch => exact system.effect_result unparse i j .fetch (Or.inl rfl)
      | allocColumns => exact system.effect_result unparse i j .allocColumns (Or.inr rfl)
      | describe colno heap =>
          exact system.effect_result unparse i j (.describe colno heap) (Or.inr rfl)
      | getCol colno heap =>
          exact system.effect_result unparse i j (.getCol colno heap) (Or.inr rfl)

end

end PdoCassandra.Driver
