import PdoCassandra.Driver.Statement
import PdoCassandra.Foundation.Transition

/-!
# The calls that PDO makes on one handle

PDO's core keeps the array of described columns: it allocates the array when it
is missing and has the driver describe each entry.  Apart from that, a program
reaches the driver by its methods only, one call at a time.
-/

namespace PdoCassandra.Driver

open PdoCassandra.Foundation.CString
open PdoCassandra.Foundation.Transition
open PdoCassandra.Driver.CqlParser
open PdoCassandra.Thrift

/-! ## One statement -/

inductive StmtCall where
  | execute (query : Query) (replies : Replies)
  | fetch
  /-- PDO's allocation of `stmt->columns`, when it is `NULL`. -/
  | allocColumns
  | describe (colno : Int32) (heap : Heap)
  | getCol (colno : Int32) (heap : Heap)

/-- The calls that PDO makes on a current row. -/
def StmtCall.readsRow : StmtCall → Bool
  | .allocColumns | .describe _ _ | .getCol _ _ => true
  | .execute _ _ | .fetch => false

/-- The query is sent, and the server answers with rows. -/
def answeredWithRows (conn : Conn) : StmtCall → Bool
  | .execute query replies =>
      match cacheKeyspace conn.H replies, scanColumnfamily query.memory,
        useTarget query, recvExecuteCqlQuery replies.executeCqlQuery with
      | .ok _, some _, none, .ok result => result.type = .rows
      | _, _, _, _ => false
  | _ => false

/-- `ecalloc(stmt->column_count, sizeof(struct pdo_column_data))`. -/
def Stmt.allocColumns (stmt : Stmt) : Stmt :=
  match stmt.columns with
  | some _ => stmt
  | none =>
      { stmt with columns := some (List.replicate stmt.columnCount.toInt.toNat {}) }

theorem Stmt.allocColumns_frame (stmt : Stmt) :
    ∃ columns, stmt.allocColumns = { stmt with columns } := by
  unfold Stmt.allocColumns
  split
  · exact ⟨stmt.columns, rfl⟩
  · exact ⟨_, rfl⟩

section

variable (unparse : Bytes → Bytes) (H : DbHandle) (heaps : Nat → Heap)

/-- The loop that has `count` columns described from column `col` on. -/
def Stmt.describeFrom : Nat → Nat → Stmt → Exit × Stmt
  | _, 0, stmt => (.ret 1, stmt)
  | col, count + 1, stmt =>
      match pdoCassandraStmtDescribe unparse (heaps col) H stmt (Int32.ofNat col) with
      | (.ret 1, stmt) => stmt.describeFrom (col + 1) count
      | (.ret _, stmt) => (.ret 0, stmt)
      | (exit, stmt) => (exit, stmt)

/-- The entry that describing column `i` of a row leaves. -/
def describedColumn (columnFamily : Bytes) (row : CqlRow) (i : Nat) :
    Option PdoColumnData :=
  row.columns[i]?.map fun col =>
    describeColumn (columnName unparse (heaps i) (H.cfDef columnFamily) col)

/-- The loop fills in the entries from column `col` on. -/
theorem Stmt.describeFrom_eq {stmt : Stmt} {row : CqlRow} {columns : List PdoColumnData}
    (hrow : stmt.row = .ok row) (hwidth : row.columns.length < 2 ^ 31)
    (hcolumns : stmt.columns = some columns)
    (hlength : columns.length = row.columns.length) (col count : Nat)
    (hcount : col + count = columns.length) :
    ∃ described : List PdoColumnData,
      stmt.describeFrom unparse H heaps col count =
        (.ret 1, { stmt with columns := some described }) ∧
      described.length = columns.length ∧
      ∀ i, described[i]? =
        if i < col then columns[i]?
        else describedColumn unparse H heaps stmt.columnFamily row i := by
  induction count generalizing stmt columns col with
  | zero =>
      refine ⟨columns, by rw [← hcolumns]; rfl, rfl, fun i => ?_⟩
      split
      · rfl
      · have hnone : row.columns[i]? = none := List.getElem?_eq_none (by omega)
        rw [describedColumn, hnone, List.getElem?_eq_none (by omega)]
        rfl
  | succ count ih =>
      have hlt : col < row.columns.length := by omega
      have hcol : row.columns[col]? = some row.columns[col] := List.getElem?_eq_getElem hlt
      have hint : (Int32.ofNat col).toInt = col := Int32.toInt_ofNat_of_lt (by omega)
      have hindex : row.columns[(Int32.ofNat col).toInt.toNat]? = some row.columns[col] := by
        rw [hint, Int.toNat_natCast]
        exact hcol
      have hdescribe := pdoCassandraStmtDescribe_col unparse (heaps col) H hrow hwidth
        hcolumns hlength (by omega) hindex
      rw [hint, Int.toNat_natCast] at hdescribe
      generalize hfilled : columns.set col _ = filled at hdescribe
      have hfilledLength : filled.length = columns.length := by
        rw [← hfilled, List.length_set]
      -- the row that is described does not depend on the array
      have hkept : Stmt.row { stmt with columns := some filled } = .ok row := hrow
      simp only [Stmt.describeFrom, hdescribe]
      obtain ⟨described, hloop, hdescribed, hentries⟩ := ih hkept rfl
        (hfilledLength.trans hlength) (col + 1) (by omega)
      refine ⟨described, hloop, hdescribed.trans hfilledLength, fun i => ?_⟩
      rw [hentries, ← hfilled, List.getElem?_set]
      by_cases hbefore : i < col
      · rw [if_pos (by omega), if_neg (by omega), if_pos hbefore]
      · rw [if_neg hbefore]
        by_cases hhere : col = i
        · subst hhere
          rw [if_pos (by omega), if_pos rfl, if_pos (by omega), describedColumn, hcol]
          rfl
        · rw [if_neg (by omega)]

/-- `pdo_stmt_describe_columns`. -/
def Stmt.describeColumns (stmt : Stmt) : Exit × Stmt :=
  stmt.allocColumns.describeFrom unparse H heaps 0 stmt.columnCount.toInt.toNat

/-- PDO describes each column of a current row that is not described yet. -/
theorem Stmt.describeColumns_eq {stmt : Stmt} {row : CqlRow} (hrow : stmt.row = .ok row)
    (hwidth : row.columns.length < 2 ^ 31) (hcolumns : stmt.columns = none)
    (hcount : stmt.columnCount.toInt = row.columns.length) :
    ∃ described : List PdoColumnData,
      stmt.describeColumns unparse H heaps =
        (.ret 1, { stmt with columns := some described }) ∧
      described.length = row.columns.length ∧
      ∀ i, described[i]? = describedColumn unparse H heaps stmt.columnFamily row i := by
  have halloc : stmt.allocColumns =
      { stmt with columns := some (List.replicate row.columns.length {}) } := by
    simp only [Stmt.allocColumns, hcolumns, hcount, Int.toNat_natCast]
  have hkept : stmt.allocColumns.row = .ok row := by
    rw [halloc]
    exact hrow
  obtain ⟨described, hloop, hlength, hentries⟩ :=
    Stmt.describeFrom_eq unparse H heaps hkept hwidth (by rw [halloc])
      List.length_replicate 0 row.columns.length (by simp)
  rw [List.length_replicate] at hlength
  rw [halloc] at hloop hentries
  refine ⟨described, ?_, hlength, fun i => by simpa using hentries i⟩
  simpa only [Stmt.describeColumns, halloc, hcount, Int.toNat_natCast] using hloop

/-- The names of a described row are all from `emalloc` unless one of them is hex. -/
theorem describedColumn_own_iff {columnFamily : Bytes} {row : CqlRow}
    {described : List PdoColumnData}
    (hentries : ∀ i, described[i]? = describedColumn unparse H heaps columnFamily row i) :
    (∀ data ∈ described, data.isForeign = false) ↔ PlainRow (H.cfDef columnFamily) row := by
  constructor
  · intro hown found hfound col hcol hhex
    obtain ⟨i, hi⟩ := List.mem_iff_getElem?.mp hcol
    have hentry := hentries i
    rw [describedColumn, hi, Option.map_some] at hentry
    have hfree := hown _ (List.mem_of_getElem? hentry)
    rw [Bool.eq_false_iff, ne_eq, describeColumn_isForeign, columnName_storage] at hfree
    exact hfree ⟨found, hfound, hhex⟩
  · intro hplain data hdata
    obtain ⟨i, hi⟩ := List.mem_iff_getElem?.mp hdata
    rw [hentries] at hi
    obtain ⟨col, hcol, rfl⟩ := Option.map_eq_some_iff.mp hi
    rw [Bool.eq_false_iff, ne_eq, describeColumn_isForeign, columnName_storage]
    rintro ⟨found, hfound, hhex⟩
    exact hplain found hfound col (List.mem_of_getElem? hcol) hhex

/-- Describing columns changes nothing but the entries of their array. -/
theorem Stmt.describeFrom_frame (stmt : Stmt) (col count : Nat) :
    ∃ columns, (stmt.describeFrom unparse H heaps col count).2 = { stmt with columns } ∧
      columns.map List.length = stmt.columns.map List.length := by
  induction count generalizing stmt col with
  | zero => exact ⟨stmt.columns, rfl, rfl⟩
  | succ count ih =>
      obtain ⟨columns, hframe, hlength⟩ :=
        pdoCassandraStmtDescribe_frame unparse (heaps col) H stmt (Int32.ofNat col)
      rcases hcall : pdoCassandraStmtDescribe unparse (heaps col) H stmt (Int32.ofNat col) with
        ⟨exit, left⟩
      rw [hcall] at hframe
      obtain rfl : left = { stmt with columns } := hframe
      unfold Stmt.describeFrom
      rw [hcall]
      split
      · rename_i heq
        cases heq
        obtain ⟨after, hafter, hsame⟩ := ih { stmt with columns } (col + 1)
        exact ⟨after, hafter, hsame.trans hlength⟩
      · rename_i heq
        cases heq
        exact ⟨columns, rfl, hlength⟩
      · rename_i heq
        cases heq
        exact ⟨columns, rfl, hlength⟩

/-- A fetch by PDO, which has the columns described when it finds none. -/
def Stmt.pdoFetch (stmt : Stmt) : Exit × Stmt :=
  match pdoCassandraStmtFetch stmt with
  | (.ret 1, stmt) =>
      match stmt.columns with
      | none => stmt.describeColumns unparse H heaps
      | some _ => (.ret 1, stmt)
  | (exit, stmt) => (exit, stmt)

end

/-- The name in an entry of `stmt->columns`. -/
def Stmt.label (stmt : Stmt) (colno : Int32) : Option Bytes :=
  match stmt.columns with
  | none => none
  | some columns => (columns[colno.toInt.toNat]?.bind PdoColumnData.name).map CharPtr.text

/-- What a call returns, the text it delivers, and the state behind it. -/
structure Effect where
  exit : Exit
  text : Option Bytes := none
  conn : Conn
  stmt : Stmt

section

variable (unparse : Bytes → Bytes)

def Stmt.call (conn : Conn) (stmt : Stmt) : StmtCall → Effect
  | .execute query replies =>
      let (outcome, conn, stmt) := pdoCassandraStmtExecute conn stmt query replies
      { exit := outcome.exit
        conn
        stmt := { stmt with
          executed := stmt.executed || outcome.exit = .ret 1 } }
  | .fetch =>
      let (exit, stmt) := pdoCassandraStmtFetch stmt
      { exit, conn, stmt }
  | .allocColumns => { exit := .ret 1, conn, stmt := stmt.allocColumns }
  | .describe colno heap =>
      let (exit, stmt) := pdoCassandraStmtDescribe unparse heap conn.H stmt colno
      { exit
        text := if exit = .ret 1 then stmt.label colno else none
        conn
        stmt }
  | .getCol colno heap =>
      let (exit, ptr) := pdoCassandraStmtGetCol heap conn.H stmt colno
      { exit, text := ptr.map fun ptr => ptr.read heap.dead, conn, stmt }

/-! ## The handle and its statements -/

structure System where
  conn : Conn
  stmts : Nat → Stmt

/-- A program's statements on the handle that the factory leaves. -/
def opened (vars : DataSource) (credentials : Credentials) (server : Server)
    (replies : Replies) (stmts : Nat → Stmt) : System :=
  ⟨(pdoCassandraHandleFactory vars credentials server replies).2, stmts⟩

inductive Call where
  /-- `PDO::exec`. -/
  | exec (sql : Query) (replies : Replies)
  /-- `PDO::prepare`, into one of the program's variables. -/
  | prepare (i : Nat)
  | stmt (i : Nat) (call : StmtCall)

/-- The effect of a call on one of the statements. -/
def System.effect (system : System) (i : Nat) (call : StmtCall) : Effect :=
  (system.stmts i).call unparse system.conn call

def System.call (system : System) : Call → Exit × System
  | .exec sql replies =>
      let (outcome, conn) := cassandraHandleDoer system.conn sql replies
      (outcome.exit, { system with conn })
  | .prepare i =>
      (.ret 1,
        { system with
          stmts := Function.update system.stmts i cassandraHandlePreparer })
  | .stmt i call =>
      let effect := system.effect unparse i call
      (effect.exit,
        { conn := effect.conn, stmts := Function.update system.stmts i effect.stmt })

/-- The program goes on after a call that returns to PDO. -/
def System.next (system : System) (call : Call) : Option System :=
  match system.call unparse call with
  | (.ret _, system) => some system
  | _ => none

/-! ## What a call does to the handle and the session -/

/-- A call that hands its query to `execute_cql_query`. -/
inductive Sends (H : DbHandle) : Call → Query → Replies → Prop where
  | exec {sql : Query} {replies : Replies} (huse : useTarget sql = none) :
      Sends H (.exec sql replies) sql replies
  | execute {i : Nat} {query : Query} {replies : Replies}
      (hdescribed : Described H replies)
      (hscan : scanColumnfamily query.memory ≠ none)
      (huse : useTarget query = none) :
      Sends H (.stmt i (.execute query replies)) query replies

/-- The handle behind the cache lookup of an execute. -/
def Call.cache (H : DbHandle) : Call → DbHandle
  | .stmt _ (.execute _ replies) =>
      match cacheKeyspace H replies with
      | .ok cached => cached
      | .error _ => H
  | _ => H

theorem Call.cache_keyspace (H : DbHandle) (call : Call) :
    (call.cache H).keyspace = H.keyspace := by
  unfold Call.cache
  split
  · split
    · rename_i hcache
      exact cacheKeyspace_keyspace hcache
    · rfl
  · rfl

inductive ConnStep (conn : Conn) (call : Call) : Conn → Prop where
  | quiet (hquiet : ∀ query replies, ¬ Sends conn.H call query replies) :
      ConnStep conn call ⟨call.cache conn.H, conn.server⟩
  | used {keyspace : Bytes}
      (hquiet : ∀ query replies, ¬ Sends conn.H call query replies) :
      ConnStep conn call
        ⟨{ call.cache conn.H with keyspace }, { conn.server with keyspace }⟩
  | queried {query : Query} {replies : Replies} {result : CqlResult}
      (hsends : Sends conn.H call query replies)
      (hquery : recvExecuteCqlQuery replies.executeCqlQuery = .ok result) :
      ConnStep conn call
        ⟨call.cache conn.H,
          { conn.server with
            keyspace := (conn.server.cqlUse query.text).getD conn.server.keyspace
            schema := replies.alter conn.server.schema }⟩
  | queryRaised {query : Query} {replies : Replies} {e : TException}
      (hsends : Sends conn.H call query replies)
      (hquery : recvExecuteCqlQuery replies.executeCqlQuery = .error e) :
      ConnStep conn call
        ⟨call.cache conn.H,
          { conn.server with schema := replies.alter conn.server.schema }⟩

/-- A `USE` that the driver recognises is never sent as a query. -/
theorem not_sends_of_use {H : DbHandle} {call : Call} {query sent : Query}
    {replies : Replies} {keyspace : Bytes} (huse : useTarget query = some keyspace)
    (hcall : (∃ replies, call = .exec query replies) ∨
      ∃ i replies, call = .stmt i (.execute query replies)) :
    ¬ Sends H call sent replies := by
  intro hsends
  cases hsends with
  | exec hnone =>
      rcases hcall with ⟨replies, hcall⟩ | ⟨i, replies, hcall⟩
      · cases hcall
        simp [huse] at hnone
      · cases hcall
  | execute hdescribed hscan hnone =>
      rcases hcall with ⟨replies, hcall⟩ | ⟨i, replies, hcall⟩
      · cases hcall
      · cases hcall
        simp [huse] at hnone

theorem connStep_exec {conn after : Conn} {sql : Query} {replies : Replies}
    {outcome : Outcome}
    (hcall : cassandraHandleDoer conn sql replies = (outcome, after)) :
    ConnStep conn (.exec sql replies) after := by
  cases cassandraHandleDoer_exit hcall with
  | used huse hset =>
      exact .used fun _ _ => not_sends_of_use huse (Or.inl ⟨_, rfl⟩)
  | useRaised huse hset =>
      exact .quiet fun _ _ => not_sends_of_use huse (Or.inl ⟨_, rfl⟩)
  | queried huse hquery => exact .queried (.exec huse) hquery
  | queryRaised huse hquery => exact .queryRaised (.exec huse) hquery

theorem cache_execute {H cached : DbHandle} {replies : Replies}
    (hcache : cacheKeyspace H replies = .ok cached) (i : Nat) (query : Query) :
    (Call.stmt i (.execute query replies)).cache H = cached := by
  simp only [Call.cache, hcache]

theorem connStep_execute {conn after : Conn} {stmt left : Stmt} {query : Query}
    {replies : Replies} {outcome : Outcome} (i : Nat)
    (hcall : pdoCassandraStmtExecute conn stmt query replies = (outcome, after, left)) :
    ConnStep conn (.stmt i (.execute query replies)) after := by
  cases pdoCassandraStmtExecute_exit hcall with
  | describeRaised hcache =>
      have hkept : (Call.stmt i (.execute query replies)).cache conn.H = conn.H := by
        simp only [Call.cache, hcache]
      have hstep : ConnStep conn (.stmt i (.execute query replies))
          ⟨(Call.stmt i (.execute query replies)).cache conn.H, conn.server⟩ := by
        apply ConnStep.quiet
        intro _ _ hsends
        cases hsends with
        | execute hdescribed hscan huse =>
            obtain ⟨cached, hcached⟩ := (described_iff _ _).mp hdescribed
            rw [hcache] at hcached
            cases hcached
      rwa [hkept] at hstep
  | overrun hcache hscan =>
      rw [← cache_execute hcache i query]
      apply ConnStep.quiet
      intro _ _ hsends
      cases hsends with
      | execute hdescribed hsome huse => exact hsome hscan
  | used hcache hscan huse hset =>
      rw [← cache_execute hcache i query]
      exact .used fun _ _ => not_sends_of_use huse (Or.inr ⟨_, _, rfl⟩)
  | useRaised hcache hscan huse hset =>
      rw [← cache_execute hcache i query]
      exact .quiet fun _ _ => not_sends_of_use huse (Or.inr ⟨_, _, rfl⟩)
  | queried hcache hscan huse hquery =>
      rw [← cache_execute hcache i query]
      have hdescribed := (described_iff _ _).mpr ⟨_, hcache⟩
      exact .queried (.execute hdescribed (by simp [hscan]) huse) hquery
  | queryRaised hcache hscan huse hquery =>
      rw [← cache_execute hcache i query]
      have hdescribed := (described_iff _ _).mpr ⟨_, hcache⟩
      exact .queryRaised (.execute hdescribed (by simp [hscan]) huse) hquery

/-- The methods other than execute leave the handle alone. -/
theorem Stmt.call_conn (conn : Conn) (stmt : Stmt) {call : StmtCall}
    (hcall : ∀ query replies, call ≠ .execute query replies) :
    (stmt.call unparse conn call).conn = conn := by
  cases call with
  | execute query replies => exact absurd rfl (hcall query replies)
  | fetch | allocColumns | describe colno heap | getCol colno heap => rfl

theorem answeredWithRows_iff {conn : Conn} {query : Query} {replies : Replies} :
    answeredWithRows conn (.execute query replies) = true ↔
      ∃ H found result, cacheKeyspace conn.H replies = .ok H ∧
        scanColumnfamily query.memory = some found ∧ useTarget query = none ∧
        recvExecuteCqlQuery replies.executeCqlQuery = .ok result ∧ result.type = .rows := by
  simp only [answeredWithRows]
  constructor
  · intro hrows
    split at hrows
    · rename_i H found result hcache hscan huse hquery
      exact ⟨H, found, result, hcache, hscan, huse, hquery, by simpa using hrows⟩
    · cases hrows
  · rintro ⟨H, found, result, hcache, hscan, huse, hquery, htype⟩
    simp [hcache, hscan, huse, hquery, htype]

/-- Execute returns `1` from a query that is answered with rows. -/
theorem Stmt.call_execute_answered (conn : Conn) (stmt : Stmt) {query : Query}
    {replies : Replies} (hrows : answeredWithRows conn (.execute query replies) = true) :
    (stmt.call unparse conn (.execute query replies)).exit = .ret 1 := by
  obtain ⟨H, found, result, hcache, hscan, huse, hquery, -⟩ :=
    answeredWithRows_iff.mp hrows
  have hdescribed := (described_iff conn.H replies).mpr ⟨H, hcache⟩
  have hret := @pdoCassandraStmtExecute_answered conn stmt query replies result
    hdescribed (by simp [hscan]) huse hquery
  simp only [Stmt.call, hret]

/-- Execute stores the rows that it is answered with. -/
theorem Stmt.call_execute_rows (conn : Conn) (stmt : Stmt) {query : Query}
    {replies : Replies} (hrows : answeredWithRows conn (.execute query replies) = true) :
    ∃ result, recvExecuteCqlQuery replies.executeCqlQuery = .ok result ∧
      (stmt.call unparse conn (.execute query replies)).stmt.result = some result := by
  obtain ⟨-, -, result, -, -, -, hquery, htype⟩ := answeredWithRows_iff.mp hrows
  refine ⟨result, hquery, ?_⟩
  have hret := Stmt.call_execute_answered unparse conn stmt hrows
  simp only [Stmt.call] at hret ⊢
  rcases hcall : pdoCassandraStmtExecute conn stmt query replies with
    ⟨outcome, after, left⟩
  rw [hcall] at hret
  obtain ⟨-, -, same, -, -, -, hsame, -, rfl⟩ :=
    pdoCassandraStmtExecute_success hcall hret
  rw [hquery, Except.ok.injEq] at hsame
  subst hsame
  simp only [Stmt.setResult, htype]

/-- Without rows in the answer, execute leaves the cursor where it was. -/
theorem Stmt.call_execute_kept (conn : Conn) (stmt : Stmt) {query : Query}
    {replies : Replies} (hrows : answeredWithRows conn (.execute query replies) = false) :
    (stmt.call unparse conn (.execute query replies)).stmt.result = stmt.result ∧
      (stmt.call unparse conn (.execute query replies)).stmt.index = stmt.index := by
  simp only [Stmt.call]
  rcases hcall : pdoCassandraStmtExecute conn stmt query replies with
    ⟨outcome, after, left⟩
  cases pdoCassandraStmtExecute_exit hcall with
  | @queried H found result hcache hscan huse hquery =>
      have htype : result.type ≠ .rows := by
        simpa [answeredWithRows, hcache, hscan, huse, hquery] using hrows
      unfold Stmt.setResult
      split
      · exact absurd ‹_› htype
      all_goals exact ⟨rfl, rfl⟩
  | describeRaised | overrun | used | useRaised | queryRaised => exact ⟨rfl, rfl⟩

/-- PDO's array has one entry for each column. -/
def Stmt.Fits (stmt : Stmt) : Prop :=
  ∀ columns, stmt.columns = some columns → columns.length = stmt.columnCount.toInt.toNat

/-- PDO's allocation leaves an array with room for each column. -/
theorem Stmt.allocColumns_eq {stmt : Stmt} (hfits : stmt.Fits) :
    ∃ columns : List PdoColumnData,
      stmt.allocColumns = { stmt with columns := some columns } ∧
        columns.length = stmt.columnCount.toInt.toNat := by
  unfold Stmt.allocColumns
  cases hsome : stmt.columns with
  | some columns =>
      refine ⟨columns, ?_, hfits columns hsome⟩
      show stmt = { stmt with columns := some columns }
      rw [← hsome]
  | none => exact ⟨_, rfl, List.length_replicate⟩

/-- The row that the next fetch finds. -/
def Stmt.nextRow (stmt : Stmt) : Option CqlRow :=
  stmt.result.bind fun result => result.rows[sizeT (stmt.index + 1).toInt]?

theorem Stmt.nextRow_eq {stmt : Stmt} {result : CqlResult}
    (hresult : stmt.result = some result) :
    stmt.nextRow = result.rows[sizeT (stmt.index + 1).toInt]? := by
  rw [Stmt.nextRow, hresult, Option.bind_some]

/-- The names in `stmt->columns` are from `emalloc`. -/
def Stmt.OwnNames (stmt : Stmt) : Prop :=
  ∀ columns, stmt.columns = some columns → ∀ data ∈ columns, data.isForeign = false

/-- The next fetch frees no name that `malloc` has allocated. -/
def Stmt.FreesOwn (stmt : Stmt) : Prop :=
  stmt.nextRow ≠ none → stmt.OwnNames

theorem Stmt.efreeNames_eq_ok_iff {stmt : Stmt} (hfits : stmt.Fits)
    {columns : List PdoColumnData} (hcolumns : stmt.columns = some columns) :
    efreeNames stmt.columnCount.toInt.toNat columns = .ok () ↔ stmt.OwnNames := by
  have hlength := hfits columns hcolumns
  rw [Driver.efreeNames_eq_ok_iff, List.take_of_length_le (Nat.le_of_eq hlength)]
  simp [Stmt.OwnNames, hcolumns, hlength]

/-- Fetch, for an array of columns that PDO has allocated. -/
theorem Stmt.fetch_eq {stmt : Stmt} (hfits : stmt.Fits) (hfree : stmt.FreesOwn) :
    pdoCassandraStmtFetch stmt =
      match stmt.result with
      | none => (.fault .nullResult, { stmt with index := stmt.index + 1 })
      | some result =>
          match result.rows[sizeT (stmt.index + 1).toInt]? with
          | none => (.ret 0, { stmt with index := stmt.index + 1 })
          | some row =>
              (.ret 1,
                { stmt with
                  index := stmt.index + 1
                  columns := none
                  columnCount := Int32.ofNat row.columns.length }) := by
  rcases hcall : pdoCassandraStmtFetch stmt with ⟨exit, left⟩
  cases pdoCassandraStmtFetch_exit hcall with
  | nullResult hresult => simp only [hresult]
  | exhausted hresult hrow => simp only [hresult, hrow]
  | undescribed hresult hrow hcolumns herror =>
      have hown := hfree (by rw [Stmt.nextRow_eq hresult, hrow]; exact Option.some_ne_none _)
      rw [(Stmt.efreeNames_eq_ok_iff hfits hcolumns).mpr hown] at herror
      cases herror
  | fetched hresult hrow hcolumns => simp only [hresult, hrow]

/-- A name from `malloc` in front of another row. -/
theorem Stmt.fetch_foreign {stmt : Stmt} (hfits : stmt.Fits) (hfree : ¬ stmt.FreesOwn) :
    (pdoCassandraStmtFetch stmt).1 = .fault .foreignFree := by
  obtain ⟨hnext, hforeign⟩ := Classical.not_imp.mp hfree
  rcases hcall : pdoCassandraStmtFetch stmt with ⟨exit, left⟩
  cases pdoCassandraStmtFetch_exit hcall with
  | nullResult hresult => simp [Stmt.nextRow, hresult] at hnext
  | exhausted hresult hrow =>
      rw [Stmt.nextRow_eq hresult, hrow] at hnext
      exact absurd rfl hnext
  | undescribed hresult hrow hcolumns herror =>
      have hlength := hfits _ hcolumns
      obtain ⟨-, hshort⟩ | rfl := efreeNames_error herror
      · omega
      · rfl
  | fetched hresult hrow hcolumns =>
      refine absurd (fun columns hsome => ?_) hforeign
      exact (Stmt.efreeNames_eq_ok_iff hfits hsome).mp (hcolumns columns hsome) columns hsome

theorem Stmt.call_fits (conn : Conn) {stmt : Stmt} (hfits : stmt.Fits) (call : StmtCall) :
    (stmt.call unparse conn call).stmt.Fits := by
  cases call with
  | execute query replies =>
      simp only [Stmt.call]
      rcases hcall : pdoCassandraStmtExecute conn stmt query replies with
        ⟨outcome, after, left⟩
      obtain ⟨hcolumns, hcount⟩ := pdoCassandraStmtExecute_columns hcall
      intro columns hsome
      rw [hcount]
      exact hfits columns (hcolumns ▸ hsome)
  | fetch =>
      simp only [Stmt.call]
      rcases hcall : pdoCassandraStmtFetch stmt with ⟨exit, left⟩
      cases pdoCassandraStmtFetch_exit hcall with
      | fetched hresult hrow hcolumns =>
          intro columns hsome
          cases hsome
      | nullResult | exhausted | undescribed => exact hfits
  | allocColumns =>
      obtain ⟨columns, halloc, hlength⟩ := stmt.allocColumns_eq hfits
      simp only [Stmt.call, halloc]
      rintro entries hsome
      cases hsome
      exact hlength
  | describe colno heap =>
      obtain ⟨columns, hframe, hlength⟩ :=
        pdoCassandraStmtDescribe_frame unparse heap conn.H stmt colno
      simp only [Stmt.call, hframe]
      rintro entries rfl
      cases hsome : stmt.columns with
      | none => simp [hsome] at hlength
      | some before =>
          simp only [hsome, Option.map_some, Option.some.injEq] at hlength
          rw [hlength]
          exact hfits before hsome
  | getCol colno heap => exact hfits

/-- What PDO does behind a fetch touches nothing but the array of columns. -/
theorem Stmt.pdoFetch_frame (H : DbHandle) (heaps : Nat → Heap) {stmt : Stmt}
    (hfits : stmt.Fits) :
    ∃ columns, (stmt.pdoFetch unparse H heaps).2 =
        { (pdoCassandraStmtFetch stmt).2 with columns } ∧
      (stmt.pdoFetch unparse H heaps).2.Fits := by
  have hafter : (pdoCassandraStmtFetch stmt).2.Fits :=
    Stmt.call_fits unparse ⟨H, bareServer⟩ hfits .fetch
  unfold Stmt.pdoFetch
  rcases hcall : pdoCassandraStmtFetch stmt with ⟨exit, left⟩
  rw [hcall] at hafter
  have hquiet : ∃ columns, left = { left with columns } ∧ left.Fits := ⟨left.columns, rfl, hafter⟩
  split
  · rename_i heq
    cases heq
    cases hcolumns : left.columns with
    | some columns => exact hquiet
    | none =>
        obtain ⟨columns, halloc, hlength⟩ := left.allocColumns_eq hafter
        obtain ⟨described, hframe, hsame⟩ := left.allocColumns.describeFrom_frame unparse H
          heaps 0 left.columnCount.toInt.toNat
        rw [halloc] at hframe hsame
        refine ⟨described, ?_, fun entries hentries => ?_⟩
        · simp only [Stmt.describeColumns, halloc, hframe]
        · simp only [Stmt.describeColumns, halloc, hframe] at hentries ⊢
          rw [hentries] at hsame
          exact (Option.some.inj hsame).trans hlength
  · rename_i heq
    cases heq
    exact hquiet

/-- Reading columns touches nothing but their array. -/
theorem Stmt.call_frame (conn : Conn) (stmt : Stmt) {call : StmtCall}
    (hreads : call.readsRow = true) :
    ∃ columns, (stmt.call unparse conn call).stmt = { stmt with columns } := by
  cases call with
  | execute query replies | fetch => cases hreads
  | allocColumns => exact stmt.allocColumns_frame
  | describe colno heap =>
      obtain ⟨columns, hframe, -⟩ :=
        pdoCassandraStmtDescribe_frame unparse heap conn.H stmt colno
      exact ⟨columns, hframe⟩
  | getCol colno heap => exact ⟨stmt.columns, rfl⟩

theorem connStep (system : System) (call : Call) :
    ConnStep system.conn call (system.call unparse call).2.conn := by
  cases call with
  | exec sql replies => exact connStep_exec rfl
  | prepare i => exact .quiet fun _ _ hsends => by cases hsends
  | stmt i call =>
      cases call with
      | execute query replies => exact connStep_execute i rfl
      | fetch | allocColumns | describe colno heap | getCol colno heap =>
          exact .quiet fun _ _ hsends => by cases hsends

/-- A call sends at most one query. -/
theorem Sends.unique {H : DbHandle} {call : Call} {query other : Query}
    {replies sent : Replies} (hsends : Sends H call query replies)
    (hother : Sends H call other sent) : other = query ∧ sent = replies := by
  cases hsends with
  | exec huse =>
      cases hother
      exact ⟨rfl, rfl⟩
  | execute hdescribed hscan huse =>
      cases hother
      exact ⟨rfl, rfl⟩

/-- What a call that returns to PDO leaves behind. -/
theorem System.next_eq_some {system next : System} {call : Call}
    (hnext : system.next unparse call = some next) :
    ∃ value, system.call unparse call = (.ret value, next) := by
  unfold System.next at hnext
  split at hnext
  · rename_i value after hcall
    cases hnext
    exact ⟨value, hcall⟩
  · cases hnext

/-- A statement behind a call, which changes the one that it is made on. -/
def System.stmtAfter (system : System) (i : Nat) : Call → Stmt
  | .exec _ _ => system.stmts i
  | .prepare j => if i = j then cassandraHandlePreparer else system.stmts i
  | .stmt j call =>
      if i = j then (system.effect unparse i call).stmt else system.stmts i

theorem System.next_stmts {system next : System} {call : Call}
    (hnext : system.next unparse call = some next) (i : Nat) :
    next.stmts i = system.stmtAfter unparse i call := by
  obtain ⟨value, hcall⟩ := system.next_eq_some unparse hnext
  have hafter : (system.call unparse call).2 = next := by rw [hcall]
  rw [← hafter]
  cases call with
  | exec sql replies => rfl
  | prepare j => simp only [System.call, System.stmtAfter, Function.update_apply]
  | stmt j call =>
      simp only [System.call, System.stmtAfter, Function.update_apply]
      split
      · rename_i hsame
        rw [hsame]
      · rfl

/-! ## The cache along a run -/

/-- A cached definition is not replaced. -/
theorem Call.cache_kept {H : DbHandle} {keyspace : Bytes} {ksdef : KsDef}
    (hcached : H.ksDefs keyspace = some ksdef) (call : Call) :
    (call.cache H).ksDefs keyspace = some ksdef := by
  unfold Call.cache
  split
  · split
    · rename_i cached hcache
      obtain ⟨rfl, -⟩ | ⟨hmissing, described, -, rfl⟩ := cacheKeyspace_ok hcache
      · exact hcached
      · have hother : keyspace ≠ H.keyspace := by
          rintro rfl
          rw [hmissing] at hcached
          cases hcached
        rw [← hcached]
        exact Function.update_of_ne hother _ _
    · exact hcached
  · exact hcached

theorem System.next_ksDefs {system next : System} {call : Call} {keyspace : Bytes}
    {ksdef : KsDef} (hcached : system.conn.H.ksDefs keyspace = some ksdef)
    (hnext : system.next unparse call = some next) :
    next.conn.H.ksDefs keyspace = some ksdef := by
  obtain ⟨value, hcall⟩ := system.next_eq_some unparse hnext
  have hstep := connStep unparse system call
  rw [hcall] at hstep
  have hkept := call.cache_kept hcached
  simp only at hstep
  generalize next.conn = after at hstep ⊢
  cases hstep with
  | quiet | used | queried | queryRaised => exact hkept

/-- Whatever is called, a cached definition stays for the life of the handle. -/
theorem System.run_ksDefs {system final : System} {calls : List Call} {keyspace : Bytes}
    {ksdef : KsDef} (hcached : system.conn.H.ksDefs keyspace = some ksdef)
    (hrun : run (System.next unparse) system calls = some final) :
    final.conn.H.ksDefs keyspace = some ksdef :=
  run_preserves (fun hcached hnext => System.next_ksDefs unparse hcached hnext) hcached hrun

/-- Behind an execute that returned `1`, the current keyspace is cached. -/
theorem System.next_execute {system selected : System} {i : Nat} {query : Query}
    {replies : Replies}
    (hanswered : (system.effect unparse i (.execute query replies)).exit = .ret 1)
    (hselect : system.next unparse (.stmt i (.execute query replies)) = some selected) :
    selected.conn.H = (Call.stmt i (.execute query replies)).cache system.conn.H ∧
      ∃ ksdef, selected.conn.H.ksDefs selected.conn.H.keyspace = some ksdef := by
  obtain ⟨value, hnext⟩ := system.next_eq_some unparse hselect
  have hconn : selected.conn =
      (system.effect unparse i (.execute query replies)).conn :=
    congrArg (fun call => call.2.conn) hnext.symm
  simp only [System.effect, Stmt.call] at hanswered hconn
  rcases hcall : pdoCassandraStmtExecute system.conn (system.stmts i) query replies with
    ⟨outcome, after, left⟩
  rw [hcall] at hanswered hconn
  obtain ⟨cached, found, result, hcache, -, -, -, rfl, -⟩ :=
    pdoCassandraStmtExecute_success hcall hanswered
  rw [cache_execute hcache, hconn]
  refine ⟨rfl, ?_⟩
  obtain ⟨rfl, hfound⟩ | ⟨-, ksdef, -, rfl⟩ := cacheKeyspace_ok hcache
  · exact hfound
  · exact ⟨ksdef, Function.update_self ..⟩

/-- A query that the server answers does not end the run. -/
theorem Sends.next_ne_none {system : System} {call : Call} {query : Query}
    {replies : Replies} {result : CqlResult}
    (hsends : Sends system.conn.H call query replies)
    (hquery : recvExecuteCqlQuery replies.executeCqlQuery = .ok result) :
    system.next unparse call ≠ none := by
  cases hsends with
  | exec huse =>
      obtain ⟨reads, hscan⟩ := scanKeyspace_memory query.estrdup
      rw [useTarget_estrdup, huse] at hscan
      simp [System.next, System.call, cassandraHandleDoer, hscan,
        Server.executeCqlQuery, hquery]
  | execute hdescribed hscan huse =>
      simp [System.next, System.call, System.effect, Stmt.call,
        pdoCassandraStmtExecute_answered hdescribed hscan huse hquery]

end

end PdoCassandra.Driver
