import PdoCassandra.Properties.RemoteSession
import PdoCassandra.Properties.ResultIsolation

/-!
# The rows of a query over a connection

A handler answers a query with rows.  Whatever the program does on the handle behind
that, over the same connection, the fetches of the statement go through these rows in
their order, and what PDO is shown of a row is decoded by the schema that the handler
described.
-/

namespace PdoCassandra.Properties.RemoteRows

open PdoCassandra.Foundation
open PdoCassandra.Foundation.CString
open PdoCassandra.Foundation.Pipeline
open PdoCassandra.Foundation.Rpc
open PdoCassandra.Foundation.Transition
open PdoCassandra.Foundation.Wire
open PdoCassandra.Driver
open PdoCassandra.Driver.CqlParser
open PdoCassandra.Thrift
open PdoCassandra.Thrift.Rpc
open PdoCassandra.Properties.RemoteCalls
open PdoCassandra.Properties.RemoteOutcomes
open PdoCassandra.Properties.RemoteSession
open PdoCassandra.Properties.ResultIsolation

variable {R : Runtime} {Server : Type} {iface : Iface Server} {others : ProcessMap Server}
  {alter : Bytes → Schema → Schema} {unparse : Bytes → Bytes}

/-! ## Calls that leave a statement open -/

/-- A call that neither executes a statement nor gives it up. -/
def LeavesOpen (i : Nat) (call : Call) : Prop :=
  call ≠ .prepare i ∧ ∀ query replies, call ≠ .stmt i (.execute query replies)

theorem LeavesOpen.keepsResult {i : Nat} {call : Call} (hopen : LeavesOpen i call)
    (system : System) : KeepsResult i system call :=
  ⟨hopen.1, fun query replies hcall => absurd hcall (hopen.2 query replies)⟩

/-- The replies to a call are nothing to the statements that it leaves open. -/
theorem LeavesOpen.served {i : Nat} {call label : Call} (hopen : LeavesOpen i call)
    (hserved : Served call label) :
    LeavesOpen i label ∧ fetchesOf i label = fetchesOf i call := by
  obtain ⟨replies, rfl⟩ := hserved
  cases call with
  | exec sql old =>
      refine ⟨⟨fun hprepare => ?_, fun query sent hexecute => ?_⟩, rfl⟩
      · cases hprepare
      · cases hexecute
  | prepare j => exact ⟨hopen, rfl⟩
  | stmt j call =>
      cases call with
      | execute query old =>
          refine ⟨⟨fun hprepare => ?_, fun other sent hexecute => ?_⟩, rfl⟩
          · cases hprepare
          · cases hexecute
            exact hopen.2 query old rfl
      | fetch | allocColumns | describe colno heap | getCol colno heap => exact ⟨hopen, rfl⟩

theorem served_calls {i : Nat} {calls labels : List Call}
    (hserved : List.Forall₂ Served calls labels) (hopen : ∀ call ∈ calls, LeavesOpen i call) :
    (∀ label ∈ labels, LeavesOpen i label) ∧ fetchCount i labels = fetchCount i calls := by
  induction hserved with
  | nil => exact ⟨hopen, rfl⟩
  | cons hfirst hrest ih =>
      obtain ⟨hlabel, hfetches⟩ := (hopen _ List.mem_cons_self).served hfirst
      obtain ⟨hlabels, hcount⟩ := ih fun call hmem => hopen call (List.mem_cons_of_mem _ hmem)
      exact ⟨List.forall_mem_cons.mpr ⟨hlabel, hlabels⟩, congrArg₂ (· + ·) hfetches hcount⟩

/-- Over a connection or not, what a program does is what its calls do to the driver. -/
theorem run_served {start final : Remote Server} {calls : List Call}
    (hrun : run (Remote.next R iface others alter unparse) start calls = some final) :
    ∃ labels, List.Forall₂ Served calls labels ∧
      run (System.next unparse) start.system labels = some final.system := by
  induction calls generalizing start with
  | nil =>
      cases hrun
      exact ⟨[], List.Forall₂.nil, rfl⟩
  | cons call calls ih =>
      obtain ⟨next, hnext, hrest⟩ := Option.bind_eq_some_iff.mp hrun
      obtain ⟨label, hserved, hsystem⟩ := Remote.next_served R iface others alter hnext
      obtain ⟨labels, hlabels, hmodel⟩ := ih hrest
      refine ⟨label :: labels, List.Forall₂.cons hserved hlabels, ?_⟩
      rw [run_cons_of_step _ hsystem, hmodel]

/-! ## The column family of an open statement -/

theorem columnFamily_call (conn : Conn) (stmt : Stmt) {call : StmtCall}
    (hcall : ∀ query replies, call ≠ .execute query replies) :
    (stmt.call unparse conn call).stmt.columnFamily = stmt.columnFamily := by
  cases call with
  | execute query replies => exact absurd rfl (hcall query replies)
  | fetch =>
      rcases hcall : pdoCassandraStmtFetch stmt with ⟨exit, left⟩
      simp only [Stmt.call, hcall]
      cases pdoCassandraStmtFetch_exit hcall with
      | nullResult | exhausted | undescribed | fetched => rfl
  | allocColumns =>
      obtain ⟨columns, hframe⟩ := stmt.allocColumns_frame
      simp only [Stmt.call, hframe]
  | describe colno heap =>
      obtain ⟨columns, hframe, -⟩ :=
        pdoCassandraStmtDescribe_frame unparse heap conn.H stmt colno
      simp only [Stmt.call, hframe]
  | getCol colno heap => rfl

theorem columnFamily_next {system next : System} {call : Call} {i : Nat}
    (hopen : LeavesOpen i call) (hnext : system.next unparse call = some next) :
    (next.stmts i).columnFamily = (system.stmts i).columnFamily := by
  rw [system.next_stmts unparse hnext i]
  cases call with
  | exec sql replies => rfl
  | prepare j =>
      have hother : i ≠ j := fun hown => hopen.1 (congrArg Call.prepare hown.symm)
      simp only [System.stmtAfter, if_neg hother]
  | stmt j call =>
      simp only [System.stmtAfter]
      split
      · rename_i hown
        exact columnFamily_call system.conn (system.stmts i) fun query replies hcall =>
          hopen.2 query replies (congrArg₂ Call.stmt hown.symm hcall)
      · rfl

theorem columnFamily_run {system final : System} {calls : List Call} {i : Nat}
    (hopen : ∀ call ∈ calls, LeavesOpen i call)
    (hrun : run (System.next unparse) system calls = some final) :
    (final.stmts i).columnFamily = (system.stmts i).columnFamily := by
  have hlegal : EachStep (System.next unparse) (fun _ => LeavesOpen i) system calls :=
    EachStep.of_mem (fun call hmem _ => hopen call hmem) system
  have hstep : ∀ {state : System} {call : Call} {next : System},
      (state.stmts i).columnFamily = (system.stmts i).columnFamily → LeavesOpen i call →
      state.next unparse call = some next →
      (next.stmts i).columnFamily = (system.stmts i).columnFamily :=
    fun hkept hcall hnext => (columnFamily_next hcall hnext).trans hkept
  exact run_invariant hstep rfl hlegal hrun

/-! ## The rows by the number of fetches -/

theorem advanced_index {stmt : Stmt} (hindex : stmt.index = -1) (count : Nat) :
    (advanced stmt count).index + 1 = Int32.ofNat count := by
  induction count with
  | zero =>
      rw [advanced, hindex]
      decide
  | succ count ih =>
      have hmoved : (advanced stmt (count + 1)).index = (advanced stmt count).index + 1 := by
        rw [advanced, advance]
        cases (advanced stmt count).nextRow with
        | none => rfl
        | some row => rfl
      rw [hmoved, ih, Int32.ofNat_add]
      rfl

variable {stmt : Stmt} {result : CqlResult}

theorem sizeT_index {count : Nat} (hcount : count < 2 ^ 31) :
    sizeT (Int32.ofNat count).toInt = count := by
  rw [Int32.toInt_ofNat_of_lt hcount, sizeT_ofNat (by omega)]

/-- The next row, behind a number of fetches. -/
theorem advanced_nextRow (hresult : stmt.result = some result) (hindex : stmt.index = -1)
    {count : Nat} (hcount : count < 2 ^ 31) :
    (advanced stmt count).nextRow = result.rows[count]? := by
  have hkept : (advanced stmt count).result = some result :=
    (advanced_frame stmt count).1.trans hresult
  rw [Stmt.nextRow_eq hkept, advanced_index hindex count, sizeT_index hcount]

/-- The row that a statement shows, with its width. -/
theorem advanced_shows (hresult : stmt.result = some result) (hindex : stmt.index = -1)
    {k : Nat} (hk : k < 2 ^ 31) {row : CqlRow} (hrow : result.rows[k]? = some row) :
    (advanced stmt (k + 1)).row = .ok row ∧
      (advanced stmt (k + 1)).columnCount = Int32.ofNat row.columns.length := by
  have hkept : (advanced stmt k).result = some result :=
    (advanced_frame stmt k).1.trans hresult
  have hnext := (advanced_nextRow hresult hindex hk).trans hrow
  rw [advanced, advance, hnext]
  refine ⟨?_, rfl⟩
  simp only [Stmt.row, hkept, advanced_index hindex k, sizeT_index hk, hrow]

/-! ## A query that is answered with rows -/

/-- The handler has the keyspace of the handle, and answers a query with rows. -/
structure AnswersRows (R : Runtime) (iface : Iface Server) (H : DbHandle) (server : Server)
    (query : Query) (cached : DbHandle) (found : Scan) (rows : Records.CqlResult) : Prop where
  described : (directSchema R iface H server).1 = .ok cached
  scanned : scanColumnfamily query.memory = some found
  isQuery : useTarget query = none
  answered : (iface.executeCqlQuery query.text compressionNone
    (directSchema R iface H server).2).1 = .ok rows
  isRows : rows.type = 1

theorem directSchema_cached {H cached : DbHandle} {server : Server}
    (hdescribed : (directSchema R iface H server).1 = .ok cached) :
    cached.keyspace = H.keyspace ∧ ∃ ksDef, cached.ksDefs cached.keyspace = some ksDef := by
  unfold directSchema at hdescribed
  cases hfind : H.ksDefs H.keyspace with
  | some ksDef =>
      simp only [hfind, Except.ok.injEq] at hdescribed
      exact ⟨hdescribed ▸ rfl, ksDef, hdescribed ▸ hfind⟩
  | none =>
      simp only [hfind] at hdescribed
      cases hanswer : (iface.describeKeyspace H.keyspace server).1 with
      | ok ksDef =>
          rw [hanswer] at hdescribed
          cases hdescribed
          exact ⟨rfl, _, Function.update_self ..⟩
      | error e =>
          rw [hanswer] at hdescribed
          cases hdescribed

variable {origin : Server} {remote : Remote Server} {i : Nat} {query : Query}
  {old : Replies} {cached : DbHandle} {found : Scan} {rows : Records.CqlResult}

variable (alter) (unparse) in
/-- The statement behind the query has the rows, and has not been fetched from. -/
theorem execute_opens (hidle : Idle R iface others origin remote.link)
    (hcarried : CallsCarried R iface remote (.stmt i (.execute query old)))
    (hanswers : AnswersRows R iface remote.system.conn.H remote.link.server query cached
      found rows) :
    ∃ selected, remote.next R iface others alter unparse (.stmt i (.execute query old)) =
        some selected ∧
      selected.system.conn.H = cached ∧
      (selected.system.stmts i).result = some rows.received.view ∧
      (selected.system.stmts i).index = -1 ∧
      (selected.system.stmts i).columnFamily =
        found.token.getD (remote.system.stmts i).columnFamily ∧
      (selected.system.stmts i).columns = (remote.system.stmts i).columns := by
  have hdescribe := hcarried (.describeKeyspace remote.system.conn.H.keyspace)
    List.mem_cons_self
  have hquery := hcarried (queryCall query) (List.mem_cons_of_mem _ List.mem_cons_self)
  obtain ⟨replies, link, hask, hdirect, -⟩ :=
    askExecute_direct alter hidle hdescribe hquery (remote.system.stmts i)
  simp only [directExecute, directQuery, hanswers.described, hanswers.scanned,
    hanswers.isQuery, hanswers.answered, Prod.mk.injEq] at hdirect
  obtain ⟨hexit, hH, hstmt⟩ := hdirect
  have hrows : rows.received.view.type = .rows := by
    have hcode : rows.received.type = 1 := hanswers.isRows
    simp only [Records.CqlResult.view, hcode, Records.resultType, if_true]
  refine ⟨⟨(remote.system.call unparse (.stmt i (.execute query replies))).2, link⟩,
    ?_, hH, ?_, ?_, ?_, ?_⟩
  · simp only [Remote.next, askFor, hask, bind, Option.bind_some, withReplies, System.next,
      System.call, System.effect, Stmt.call, hexit, pure]
  all_goals
    simp only [System.call, System.effect, Stmt.call, Function.update_self, hstmt,
      Stmt.setResult, hrows, Stmt.setColumnFamily]

/-! ## What PDO is shown -/

/-- PDO is shown the columns of a row and no others, decoded by a definition. -/
def ShowsRow (unparse : Bytes → Bytes) (system : System) (i : Nat) (cfdef : Option CfDef)
    (row : CqlRow) : Prop :=
  (system.stmts i).columnCount.toInt = row.columns.length ∧
    ∀ colno col heap, row.columns[colno]? = some col →
      reply ((system.stmts i).allocColumns.call unparse system.conn
          (.describe (Int32.ofNat colno) heap)) =
        (.ret 1, some (columnLabel unparse heap cfdef col)) ∧
      reply ((system.stmts i).call unparse system.conn (.getCol (Int32.ofNat colno) heap)) =
        (.ret 1, some (columnValue heap cfdef col))

theorem showsRow {system : System} {i : Nat} {row : CqlRow} (hfits : (system.stmts i).Fits)
    (hrow : (system.stmts i).row = .ok row)
    (hcount : (system.stmts i).columnCount = Int32.ofNat row.columns.length)
    (hwidth : row.columns.length < 2 ^ 31) :
    ShowsRow unparse system i (definition system i) row := by
  have hcolumnCount : (system.stmts i).columnCount.toInt = row.columns.length := by
    rw [hcount, Int32.toInt_ofNat_of_lt hwidth]
  refine ⟨hcolumnCount, fun colno col heap hcol => ?_⟩
  obtain ⟨columns, halloc, hlength⟩ := (system.stmts i).allocColumns_eq hfits
  have hlt : colno < row.columns.length := (List.getElem?_eq_some_iff.mp hcol).1
  have hcolno : (Int32.ofNat colno).toInt = colno := Int32.toInt_ofNat_of_lt (by omega)
  have hplace : row.columns[sizeT (Int32.ofNat colno).toInt]? = some col := by
    rw [hcolno, sizeT_ofNat (by omega)]
    exact hcol
  have hroom : 0 ≤ (Int32.ofNat colno).toInt ∧ (Int32.ofNat colno).toInt < columns.length := by
    rw [hcolno, hlength, hcolumnCount]
    omega
  have hkept : Stmt.row { system.stmts i with columns := some columns } = .ok row := hrow
  constructor
  · rw [halloc, reply_describe rfl, hkept]
    simp only [hplace, if_pos hroom]
    rfl
  · rw [reply_getCol, hrow]
    simp only [hplace]
    rfl

/--
The rows that a handler answers with, over a connection: the statement fetches them in
their order, each once, whatever other calls the program makes meanwhile and as long as a
fetch frees its own names, and while the keyspace is the one of the query PDO is shown
each of their columns by the handler's own schema.
-/
theorem rows_over_wire {start final : Remote Server}
    (hnew : start.system.stmts = fun _ => cassandraHandlePreparer) {earlier calls : List Call}
    (hearlier : run (Remote.next R iface others alter unparse) start earlier = some remote)
    (hidle : Idle R iface others origin remote.link)
    (hcarried : CallsCarried R iface remote (.stmt i (.execute query old)))
    (hanswers : AnswersRows R iface remote.system.conn.H remote.link.server query cached
      found rows)
    (hopen : ∀ call ∈ calls, LeavesOpen i call)
    (hrun : run (Remote.next R iface others alter unparse) remote
      (.stmt i (.execute query old) :: calls) = some final)
    (hfetches : fetchCount i calls < 2 ^ 31) :
    ((final.system.stmts i).FreesOwn →
        (pdoCassandraStmtFetch (final.system.stmts i)).1 =
          .ret (if fetchCount i calls < rows.received.view.rows.length then 1 else 0)) ∧
      (final.system.conn.H.keyspace = remote.system.conn.H.keyspace →
        ∀ k row, fetchCount i calls = k + 1 → rows.received.view.rows[k]? = some row →
          row.columns.length < 2 ^ 31 →
          ShowsRow unparse final.system i
            (cached.cfDef (found.token.getD (remote.system.stmts i).columnFamily)) row) := by
  obtain ⟨selected, hselect, hH, hresult, hindex, hfamily, -⟩ :=
    execute_opens alter unparse hidle hcarried hanswers
  obtain ⟨before, -, hbefore⟩ := run_served hearlier
  have hstart : AllFit start.system := by
    intro j columns hsome
    rw [hnew] at hsome
    cases hsome
  obtain ⟨label, -, hexecuted⟩ := Remote.next_served R iface others alter hselect
  have hfit : AllFit selected.system :=
    allFit_next (run_preserves allFit_next hstart hbefore) hexecuted
  rw [run_cons_of_step _ hselect] at hrun
  obtain ⟨labels, hserved, hmodel⟩ := run_served hrun
  obtain ⟨hlabels, hcount⟩ := served_calls hserved hopen
  have hlegal : EachStep (System.next unparse) (KeepsResult i) selected.system labels :=
    EachStep.of_mem (fun label hmem => (hlabels label hmem).keepsResult) selected.system
  have hfinal := run_preserves allFit_next hfit hmodel i
  have hsame := sameCursor_run ⟨rfl, rfl, rfl⟩ hlegal hmodel
  rw [hcount] at hsame
  refine ⟨fun hfree => ?_, fun hkeyspace k row hk hrow hwidth => ?_⟩
  · have hopened : (final.system.stmts i).result ≠ none := by
      rw [hsame.result, (advanced_frame _ _).1, hresult]
      exact Option.some_ne_none _
    rw [fetch_of_freesOwn hfinal hfree, hsame.nextRow,
      advanced_nextRow hresult hindex hfetches]
    by_cases hleft : fetchCount i calls < rows.received.view.rows.length
    · simp only [if_neg hopened, if_pos hleft, List.getElem?_eq_getElem hleft, reduceCtorEq,
        if_false]
    · simp only [if_neg hopened, if_neg hleft,
        List.getElem?_eq_none (Nat.le_of_not_lt hleft), if_true]
  · rw [hk] at hsame hfetches
    obtain ⟨hshown, hwide⟩ :=
      advanced_shows hresult hindex (Nat.lt_of_succ_lt hfetches) hrow
    obtain ⟨hsameKeyspace, ksDef, hcached⟩ := directSchema_cached hanswers.described
    rw [← hH] at hsameKeyspace hcached
    have hdefinition := definition_run hcached hmodel (hkeyspace.trans hsameKeyspace.symm)
      (columnFamily_run hlabels hmodel)
    have hselected : definition selected.system i =
        cached.cfDef (found.token.getD (remote.system.stmts i).columnFamily) := by
      rw [definition, hH, hfamily]
    rw [← hselected, ← hdefinition]
    exact showsRow hfinal (hsame.row.trans hshown) (hsame.columnCount.trans hwide) hwidth

/-! ## One row -/

def oneRow : Records.CqlResult :=
  { type := 1, rows := ⟨[{ key := [107], columns := [{ name := [98] }] }], true⟩ }

/-- A handler that has any keyspace, without column families, and the same row for any query. -/
def rowIface : Iface Bytes where
  login _ keyspace := (.ok (), keyspace)
  setKeyspace keyspace _ := (.ok (), keyspace)
  describeKeyspace _ keyspace := (.ok {}, keyspace)
  describeVersion keyspace := (.ok (bytesOf "19.4.0"), keyspace)
  executeCqlQuery _ _ keyspace := (.ok oneRow, keyspace)
  what _ := bytesOf "internal error"

theorem oneRow_fits (P : Protocol) : (Records.CqlResult.record P).Fits oneRow := by
  have hcolumn : (Records.Column.record P).Fits { name := [98] } := by
    intro field hmem hpresent
    rcases List.mem_cons.mp hmem with rfl | hmem
    · exact Datum.one_lt_sizeLimit
    · simp only [List.mem_cons, List.not_mem_nil, or_false] at hmem
      rcases hmem with rfl | rfl | rfl
      all_goals cases hpresent
  have hrow : (Records.CqlRow.record P).Fits { key := [107], columns := [{ name := [98] }] } := by
    intro field hmem _
    rcases List.mem_cons.mp hmem with rfl | hmem
    · exact Datum.one_lt_sizeLimit
    · rw [List.mem_singleton.mp hmem]
      refine ⟨Datum.one_lt_sizeLimit, fun column hcolumns => ?_⟩
      rw [List.mem_singleton.mp hcolumns]
      exact hcolumn
  intro field hmem hpresent
  rcases List.mem_cons.mp hmem with rfl | hmem
  · trivial
  · rcases List.mem_cons.mp hmem with rfl | hmem
    · refine ⟨Datum.one_lt_sizeLimit, fun row hrows => ?_⟩
      rw [List.mem_singleton.mp hrows]
      exact hrow
    · rw [List.mem_singleton.mp hmem] at hpresent
      cases hpresent

theorem noFamilies_fits (P : Protocol) : (Records.KsDef.record P).Fits {} := by
  intro field hmem hpresent
  simp only [Records.KsDef.record, Records.KsDef.fields, List.mem_cons, List.not_mem_nil,
    or_false] at hmem
  rcases hmem with rfl | rfl | rfl | rfl | rfl | rfl
  · exact Datum.zero_lt_sizeLimit
  · exact Datum.zero_lt_sizeLimit
  · cases hpresent
  · cases hpresent
  · exact ⟨Datum.zero_lt_sizeLimit, fun _ hnone => (List.not_mem_nil hnone).elim⟩
  · cases hpresent

def selectA : Query := ⟨bytesOf "SELECT a FROM v", bytesOf "\n", by decide, by decide⟩

theorem selectA_carried :
    CallsCarried binary rowIface plainRemote (.stmt 0 (.execute selectA {})) := by
  have huse : useTarget selectA = none := by decide
  intro asked hmem
  rcases List.mem_cons.mp hmem with rfl | hmem
  · refine ⟨fun field hfield _ => ?_, fun server field hfield hpresent => ?_⟩
    · rw [List.mem_singleton.mp hfield]
      exact Datum.zero_lt_sizeLimit
    · rcases List.mem_cons.mp hfield with rfl | hfield
      · exact noFamilies_fits _
      · simp only [List.mem_cons, List.not_mem_nil, or_false] at hfield
        rcases hfield with rfl | rfl
        all_goals cases hpresent
  · rw [List.mem_singleton.mp hmem, queryCall, huse]
    refine ⟨fun field hfield _ => ?_, fun server field hfield hpresent => ?_⟩
    · rcases List.mem_cons.mp hfield with rfl | hfield
      · have htext : selectA.text.length < Datum.sizeLimit := by decide
        exact htext
      · rw [List.mem_singleton.mp hfield]
        trivial
    · rcases List.mem_cons.mp hfield with rfl | hfield
      · exact oneRow_fits _
      · simp only [List.mem_cons, List.not_mem_nil, or_false] at hfield
        rcases hfield with rfl | rfl | rfl | rfl
        all_goals cases hpresent

theorem rows_over_wire_one :
    ∃ final, run (Remote.next binary rowIface noOthers (fun _ => id) id) plainRemote
        [.stmt 0 (.execute selectA {}), .stmt 0 .fetch] = some final ∧
      (pdoCassandraStmtFetch (final.system.stmts 0)).1 = .ret 0 ∧
      (final.system.stmts 0).columnCount.toInt = 1 := by
  have hidle : Idle binary rowIface noOthers [] plainRemote.link := idle_start []
  have huse : useTarget selectA = none := by decide
  obtain ⟨found, hscan⟩ : ∃ found, scanColumnfamily selectA.memory = some found :=
    Option.ne_none_iff_exists'.mp (by decide)
  have hanswers : AnswersRows binary rowIface plainRemote.system.conn.H plainRemote.link.server
      selectA _ found oneRow := ⟨rfl, hscan, huse, rfl, rfl⟩
  obtain ⟨selected, hselect, hH, hresult, hindex, -, hcolumns⟩ :=
    execute_opens (fun _ => id) id hidle selectA_carried hanswers
  obtain ⟨label, -, hexecuted⟩ := Remote.next_served _ _ _ _ hselect
  have hstart : AllFit plainRemote.system := by
    intro j columns hsome
    cases hsome
  have hfits := allFit_next hstart hexecuted 0
  have hfree : (selected.system.stmts 0).FreesOwn := by
    intro _ columns hsome
    rw [hcolumns] at hsome
    cases hsome
  have hrow : (selected.system.stmts 0).nextRow = some _ :=
    (advanced_nextRow hresult hindex (by decide : 0 < 2 ^ 31)).trans rfl
  have hfetch := fetch_of_freesOwn hfits hfree
  simp only [hresult, hrow, reduceCtorEq, if_false] at hfetch
  obtain ⟨final, hnext, hconn, hstmt⟩ : ∃ final, selected.next binary rowIface noOthers
      (fun _ => id) id (.stmt 0 .fetch) = some final ∧
        final.system.conn = selected.system.conn ∧
        final.system.stmts 0 = advance (selected.system.stmts 0) := by
    refine ⟨⟨(selected.system.call id (.stmt 0 .fetch)).2, selected.link⟩, ?_, rfl, ?_⟩
    · simp only [Remote.next, askFor, bind, Option.bind_some, withReplies, System.next,
        System.call, System.effect, Stmt.call, hfetch, pure]
    · simp only [System.call, System.effect, Stmt.call, hfetch, Function.update_self]
  have hundescribed : (final.system.stmts 0).FreesOwn := by
    intro _ columns hsome
    rw [hstmt, advance, hrow] at hsome
    cases hsome
  have hkeyspace : final.system.conn.H.keyspace = plainRemote.system.conn.H.keyspace := by
    rw [hconn, hH]
  have hrun : run (Remote.next binary rowIface noOthers (fun _ => id) id) plainRemote
      [.stmt 0 (.execute selectA {}), .stmt 0 .fetch] = some final := by
    rw [run_cons_of_step _ hselect, run_cons_of_step _ hnext, run_nil]
  have hopen : ∀ call ∈ [Call.stmt 0 .fetch], LeavesOpen 0 call := by
    intro call hmem
    rw [List.mem_singleton.mp hmem]
    refine ⟨fun hprepare => ?_, fun query replies hexecute => ?_⟩
    · cases hprepare
    · cases hexecute
  have hnone : run (Remote.next binary rowIface noOthers (fun _ => id) id) plainRemote [] =
      some plainRemote := rfl
  obtain ⟨hlast, hshows⟩ :=
    rows_over_wire rfl hnone hidle selectA_carried hanswers hopen hrun (by decide)
  refine ⟨final, hrun, hlast hundescribed, ?_⟩
  exact (hshows hkeyspace 0 _ rfl rfl (by decide)).1

end PdoCassandra.Properties.RemoteRows
