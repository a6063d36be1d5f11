import PdoCassandra.Driver.Pdo

/-!
# The schema cache

A keyspace is described once and its definition kept for the life of the handle.
The cache tells the truth about the server for as long as no query that is sent
changes a keyspace that has been described.
-/

namespace PdoCassandra.Properties.SchemaCache

open PdoCassandra.Foundation.CString
open PdoCassandra.Foundation.Transition
open PdoCassandra.Driver
open PdoCassandra.Thrift

variable {unparse : Bytes → Bytes}

/-! ## Assumption and condition -/

/-- `describe_keyspace` returns the schema that the server holds. -/
def Honest (system : System) : Call → Prop
  | .stmt _ (.execute _ replies) =>
      ∀ ksdef, recvDescribeKeyspace replies.describeKeyspace = .ok ksdef →
        system.conn.server.schema system.conn.H.keyspace = some ksdef
  | _ => True

/-- A query that is sent leaves the keyspaces as they are that are cached by then. -/
def KeepsCached (system : System) (call : Call) : Prop :=
  ∀ query replies, Sends system.conn.H call query replies →
    ∀ keyspace, (call.cache system.conn.H).ksDefs keyspace ≠ none →
      replies.alter system.conn.server.schema keyspace =
        system.conn.server.schema keyspace

/-! ## The invariant -/

/-- What is cached is what the server holds. -/
def Coherent (H : DbHandle) (schema : Schema) : Prop :=
  ∀ keyspace, H.ksDefs keyspace ≠ none → H.ksDefs keyspace = schema keyspace

/-- An honest description keeps the cache coherent. -/
theorem coherent_cache {system : System} {call : Call} (hhonest : Honest system call)
    (hcoherent : Coherent system.conn.H system.conn.server.schema) :
    Coherent (call.cache system.conn.H) system.conn.server.schema := by
  unfold Call.cache
  split
  · rename_i i query replies
    split
    · rename_i cached hcache
      obtain ⟨rfl, -⟩ | ⟨-, ksdef, hdescribe, rfl⟩ := cacheKeyspace_ok hcache
      · exact hcoherent
      · intro keyspace hcached
        by_cases hsame : keyspace = system.conn.H.keyspace
        · subst hsame
          rw [hhonest ksdef hdescribe]
          exact Function.update_self ..
        · simp only [Function.update_of_ne hsame] at hcached ⊢
          exact hcoherent keyspace hcached
    · exact hcoherent
  · exact hcoherent

theorem coherent_next {system next : System} {call : Call}
    (hcoherent : Coherent system.conn.H system.conn.server.schema)
    (hholds : Honest system call ∧ KeepsCached system call)
    (hnext : system.next unparse call = some next) :
    Coherent next.conn.H next.conn.server.schema := by
  obtain ⟨hhonest, hkeeps⟩ := hholds
  have hcached := coherent_cache hhonest hcoherent
  obtain ⟨value, hcall⟩ := system.next_eq_some unparse hnext
  have hstep := connStep unparse system call
  rw [hcall] at hstep
  simp only at hstep
  generalize next.conn = after at hstep ⊢
  cases hstep with
  | quiet hquiet => exact hcached
  | used hquiet => exact hcached
  | queried hsends hquery =>
      intro keyspace hsome
      exact (hcached keyspace hsome).trans (hkeeps _ _ hsends keyspace hsome).symm
  | queryRaised hsends hquery =>
      intro keyspace hsome
      exact (hcached keyspace hsome).trans (hkeeps _ _ hsends keyspace hsome).symm

/-! ## A `SELECT` and the reading of its rows -/

/-- The calls with which the rows of an open result are read. -/
def ReadsRows (call : Call) : Prop :=
  ∃ i read, call = .stmt i read ∧ (read = .fetch ∨ read.readsRow = true)

theorem conn_of_reads {system final : System} {reads : List Call}
    (hreads : ∀ call ∈ reads, ReadsRows call)
    (hrun : run (System.next unparse) system reads = some final) :
    final.conn = system.conn := by
  induction reads generalizing system with
  | nil =>
      cases hrun
      rfl
  | cons call reads ih =>
      obtain ⟨next, hnext, hrest⟩ := Option.bind_eq_some_iff.mp hrun
      obtain ⟨value, hcall⟩ := system.next_eq_some unparse hnext
      obtain ⟨i, read, rfl, hread⟩ := hreads call List.mem_cons_self
      have hkept : next.conn = system.conn := by
        have hconn : (system.call unparse (.stmt i read)).2.conn = system.conn := by
          apply Stmt.call_conn unparse system.conn
          rintro query replies rfl
          rcases hread with hread | hread
          · cases hread
          · cases hread
        rwa [hcall] at hconn
      rw [ih (fun other hother => hreads other (List.mem_cons_of_mem _ hother)) hrest, hkept]

/--
While rows of a statement that was just executed are read, the cached definition
of the current keyspace is the schema that the server held at the execute,
provided that no query sent before has changed a keyspace that was cached by then.
-/
theorem cached_eq_schema {vars : DataSource} {credentials : Credentials}
    {server : Server} {connected : Replies}
    (hopen : (pdoCassandraHandleFactory vars credentials server connected).1.exit = .ret 1)
    {stmts : Nat → Stmt} {calls reads : List Call} {middle selected final : System}
    {i : Nat} {query : Query} {replies : Replies}
    (hholds : EachStep (System.next unparse)
      (fun system call => Honest system call ∧ KeepsCached system call)
      (opened vars credentials server connected stmts) calls)
    (hcalls : run (System.next unparse)
      (opened vars credentials server connected stmts) calls = some middle)
    (hhonest : Honest middle (.stmt i (.execute query replies)))
    (hanswered : (middle.effect unparse i (.execute query replies)).exit = .ret 1)
    (hselect : middle.next unparse (.stmt i (.execute query replies)) = some selected)
    (hreads : ∀ call ∈ reads, ReadsRows call)
    (hrun : run (System.next unparse) selected reads = some final) :
    final.conn.H.ksDefs final.conn.H.keyspace =
        middle.conn.server.schema final.conn.H.keyspace ∧
      final.conn.H.ksDefs final.conn.H.keyspace ≠ none := by
  have hstart : Coherent (opened vars credentials server connected stmts).conn.H
      (opened vars credentials server connected stmts).conn.server.schema := by
    intro keyspace hcached
    simp only [opened, pdoCassandraHandleFactory_opened hopen] at hcached
    exact absurd rfl hcached
  have hmiddle : Coherent middle.conn.H middle.conn.server.schema :=
    run_invariant coherent_next hstart hholds hcalls
  obtain ⟨hselected, ksdef, hfound⟩ := middle.next_execute unparse hanswered hselect
  have hsome : selected.conn.H.ksDefs selected.conn.H.keyspace ≠ none := by
    rw [hfound]
    simp
  rw [conn_of_reads hreads hrun]
  refine ⟨?_, hsome⟩
  rw [hselected] at hsome ⊢
  exact coherent_cache hhonest hmiddle _ hsome

/-! ## Runs with a schema change -/

/-- A column family with a column of type long. -/
def longTable : CfDef where
  name := bytesOf "t"
  columnMetadata := [⟨bytesOf "a", marshal "LongType"⟩]

/-- A column that holds the number `65`. -/
def longColumn : Column :=
  ⟨bytesOf "a", [0, 0, 0, 0, 0, 0, 0, 65]⟩

/-- The keyspace that a server starts with. -/
def noTables : KsDef := ⟨[], []⟩

/-- The keyspace with that column family. -/
def oneTable : KsDef := ⟨[], [longTable]⟩

/-- A handle on a server whose one keyspace has no column family. -/
def emptyKeyspace : System :=
  opened ⟨some (bytesOf "localhost"), none⟩ ⟨none, none⟩
    { bareServer with schema := fun _ => some noTables } {} fun _ => cassandraHandlePreparer

/-- The query that gives the keyspace its column family. -/
def createTable : Call :=
  .exec ⟨bytesOf "CREATE TABLE t (KEY text PRIMARY KEY)", [], by decide, by decide⟩
    { executeCqlQuery := .message { success := some { type := .void } }
      alter := fun _ _ => some oneTable }

/-- An `INSERT` under a keyspace that is described on the way, when it has to be. -/
def insertInto (ksdef : KsDef) : Call :=
  .stmt 1 (.execute ⟨bytesOf "INSERT INTO t (KEY) VALUES (1)", [], by decide, by decide⟩
    { describeKeyspace := .message { success := some ksdef }
      executeCqlQuery := .message { success := some { type := .void } } })

def selectQuery : Query :=
  ⟨bytesOf "SELECT KEY, a FROM t", bytesOf "\n", by decide, by decide⟩

/-- The replies to a `SELECT` that finds the column. -/
def selectReplies (ksdef : KsDef) : Replies where
  describeKeyspace := .message { success := some ksdef }
  executeCqlQuery := .message { success := some { type := .rows, rows := [⟨[longColumn]⟩] } }

def selectFrom (ksdef : KsDef) : Call :=
  .stmt 0 (.execute selectQuery (selectReplies ksdef))

/-- PDO's calls for the row that the `SELECT` finds. -/
def readRow : List Call :=
  [.stmt 0 .fetch, .stmt 0 .allocColumns, .stmt 0 (.describe 0 Heap.zeros),
    .stmt 0 (.getCol 0 Heap.zeros)]

theorem reads_readRow : ∀ call ∈ readRow, ReadsRows call := by
  intro call hcall
  simp only [readRow, List.mem_cons, List.not_mem_nil, or_false] at hcall
  rcases hcall with rfl | rfl | rfl | rfl
  · exact ⟨_, _, rfl, Or.inl rfl⟩
  all_goals exact ⟨_, _, rfl, Or.inr rfl⟩

/-- A server that describes what it holds. -/
theorem honest_execute {system : System} {i : Nat} {query : Query} {replies : Replies}
    {ksdef : KsDef} (hdescribe : recvDescribeKeyspace replies.describeKeyspace = .ok ksdef)
    (hschema : system.conn.server.schema system.conn.H.keyspace = some ksdef) :
    Honest system (.stmt i (.execute query replies)) := by
  intro described hdescribed
  rw [hdescribe, Except.ok.injEq] at hdescribed
  rw [hschema, hdescribed]

/-- The table is created before the first execute, and is the one that a `SELECT` reads. -/
theorem cached_eq_schema_read :
    ∃ middle selected final,
      run (System.next id) emptyKeyspace [createTable, insertInto oneTable] = some middle ∧
      middle.next id (selectFrom oneTable) = some selected ∧
      run (System.next id) selected readRow = some final ∧
      (final.effect id 0 (.getCol 0 Heap.zeros)).text = some (bytesOf "65") ∧
      final.conn.H.ksDefs final.conn.H.keyspace =
        middle.conn.server.schema final.conn.H.keyspace := by
  have hconnected : (pdoCassandraHandleFactory ⟨some (bytesOf "localhost"), none⟩
      ⟨none, none⟩ { bareServer with schema := fun _ => some noTables } {}).1.exit =
        .ret 1 := by decide
  have hholds : EachStep (System.next id)
      (fun system call => Honest system call ∧ KeepsCached system call)
      emptyKeyspace [createTable, insertInto oneTable] := by
    refine ⟨⟨trivial, fun query replies _ keyspace hcached => absurd rfl hcached⟩,
      fun created hcreated => ?_⟩
    cases hcreated
    refine ⟨⟨honest_execute rfl rfl, fun query replies hsends keyspace _ => ?_⟩,
      fun _ _ => trivial⟩
    cases hsends
    rfl
  obtain ⟨middle, hcalls, hhonest, hanswered, selected, hselect, final, hrun, htext⟩ :
      ∃ middle,
        run (System.next id) emptyKeyspace [createTable, insertInto oneTable] = some middle ∧
        Honest middle (selectFrom oneTable) ∧
        (middle.effect id 0 (.execute selectQuery (selectReplies oneTable))).exit = .ret 1 ∧
        ∃ selected, middle.next id (selectFrom oneTable) = some selected ∧
        ∃ final, run (System.next id) selected readRow = some final ∧
          (final.effect id 0 (.getCol 0 Heap.zeros)).text = some (bytesOf "65") :=
    ⟨_, rfl, honest_execute rfl rfl, rfl, _, rfl, _, rfl, rfl⟩
  refine ⟨middle, selected, final, hcalls, hselect, hrun, htext, ?_⟩
  exact (cached_eq_schema hconnected hholds hcalls hhonest hanswered hselect reads_readRow
    hrun).1

/-- The second `SELECT` is read under the definition that the first one found. -/
theorem not_cached_eq_schema_create :
    ∃ middle selected final,
      run (System.next id) emptyKeyspace ([selectFrom noTables] ++ readRow ++ [createTable]) =
        some middle ∧
      middle.next id (selectFrom oneTable) = some selected ∧
      run (System.next id) selected readRow = some final ∧
      EachStep (System.next id) Honest emptyKeyspace
        ([selectFrom noTables] ++ readRow ++ [createTable]) ∧
      Honest middle (selectFrom oneTable) ∧
      final.conn.H.ksDefs final.conn.H.keyspace ≠
        middle.conn.server.schema final.conn.H.keyspace ∧
      (final.effect id 0 (.getCol 0 Heap.zeros)).text = some [] ∧
      columnValue Heap.zeros (some longTable) longColumn = bytesOf "65" := by
  have hquiet : ∀ call ∈ readRow ++ [createTable], ∀ system, Honest system call := by
    intro call hcall system
    simp only [readRow, List.cons_append, List.nil_append, List.mem_cons, List.not_mem_nil,
      or_false] at hcall
    rcases hcall with rfl | rfl | rfl | rfl | rfl
    all_goals trivial
  refine ⟨_, _, _, rfl, rfl, rfl, ?_, honest_execute rfl rfl, ?_, ?_, ?_⟩
  · exact ⟨honest_execute rfl rfl, fun next _ => EachStep.of_mem hquiet next⟩
  · decide
  · decide
  · decide

end PdoCassandra.Properties.SchemaCache
