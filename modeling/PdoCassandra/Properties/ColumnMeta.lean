import PdoCassandra.Properties.CursorSafety

/-!
# Which columns have metadata

`col_meta` compares a column number with the number of rows of the result, while
PDO goes on to the entry of that number in `stmt->columns`.  The two sizes are
followed side by side along the calls on a statement.
-/

namespace PdoCassandra.Properties.ColumnMeta

open PdoCassandra.Foundation.CString
open PdoCassandra.Foundation.Transition
open PdoCassandra.Driver
open PdoCassandra.Driver.CqlParser
open PdoCassandra.Properties.CursorSafety
open PdoCassandra.Thrift

/-! ## A statement under observation -/

/-- A statement with the rows that it was answered with, and what PDO shows of them. -/
structure Watched where
  tracked : Tracked
  /-- The rows of the last execute that was answered with rows. -/
  rows : List CqlRow := []
  /-- The row that PDO has allocated `stmt->columns` for. -/
  shown : Option CqlRow := none

namespace Watched

/-- The rows behind a call, by what the server answers. -/
def rowsAfter (watched : Watched) (event : Event) : List CqlRow :=
  match event.2 with
  | .execute _ replies =>
      if answeredWithRows event.1 event.2 then
        match recvExecuteCqlQuery replies.executeCqlQuery with
        | .ok result => result.rows
        | .error _ => watched.rows
      else watched.rows
  | _ => watched.rows

/-- A fetch that finds a row takes the shown one away; PDO allocates for the current one. -/
def shownAfter (watched : Watched) (current : Bool) (event : Event) : Option CqlRow :=
  match event.2 with
  | .fetch => if current then none else watched.shown
  | .allocColumns => watched.shown.or watched.tracked.stmt.row.toOption
  | _ => watched.shown

def next (unparse : Bytes → Bytes) (watched : Watched) (event : Event) : Option Watched :=
  (watched.tracked.next unparse event).map fun tracked =>
    { tracked
      rows := watched.rowsAfter event
      shown := watched.shownAfter tracked.current event }

/-- The number of columns of the row that is shown. -/
def width (watched : Watched) : Nat :=
  watched.shown.elim 0 fun row => row.columns.length

end Watched

/-- PDO may make the call, and a row of the answer fits the size of a Thrift list. -/
structure Served (watched : Watched) (event : Event) : Prop where
  legal : Legal watched.tracked event
  narrow : ∀ row ∈ watched.rowsAfter event, row.columns.length < 2 ^ 31

/-- A statement that has just been prepared. -/
def start : Watched where
  tracked := prepared

/-! ## The two sizes -/

/-- What the state of the driver has to do with what is shown. -/
structure Shows (watched : Watched) : Prop where
  cursor : Inv watched.tracked
  fits : watched.tracked.stmt.Fits
  narrow : ∀ row ∈ watched.rows, row.columns.length < 2 ^ 31
  result : watched.tracked.opened = true →
    watched.tracked.stmt.executed = true ∧
      ∃ result, watched.tracked.stmt.result = some result ∧ result.rows = watched.rows
  missing : watched.tracked.stmt.columns = none → watched.shown = none
  allocated : watched.tracked.stmt.columns ≠ none →
    ∃ row, watched.shown = some row ∧
      watched.tracked.stmt.columnCount.toInt = row.columns.length
  current : watched.tracked.current = true →
    ∃ row, watched.tracked.stmt.row = .ok row ∧ row ∈ watched.rows ∧
      watched.tracked.stmt.columnCount.toInt = row.columns.length ∧
      (watched.tracked.stmt.columns ≠ none → watched.shown = some row)

theorem Watched.next_eq_some {unparse : Bytes → Bytes} {watched after : Watched} {event : Event}
    (hnext : watched.next unparse event = some after) :
    watched.tracked.next unparse event = some after.tracked ∧
      after.rows = watched.rowsAfter event ∧
      after.shown = watched.shownAfter after.tracked.current event := by
  obtain ⟨tracked, htracked, rfl⟩ := Option.map_eq_some_iff.mp hnext
  exact ⟨htracked, rfl, rfl⟩

/-- Only an execute can be answered with rows. -/
theorem Watched.next_kept {unparse : Bytes → Bytes} {watched after : Watched} {conn : Conn}
    {call : StmtCall} (hcall : ∀ query replies, call ≠ .execute query replies)
    (hnext : watched.next unparse (conn, call) = some after) :
    after.tracked.opened = watched.tracked.opened ∧ after.rows = watched.rows := by
  obtain ⟨htracked, hrows, -⟩ := Watched.next_eq_some hnext
  obtain ⟨value, -, hafter⟩ := CursorSafety.next_eq_some htracked
  rw [hafter, hrows]
  cases call with
  | execute query replies => exact absurd rfl (hcall query replies)
  | fetch | allocColumns | describe colno heap | getCol colno heap =>
      simp [answeredWithRows, Watched.rowsAfter]

/-- The rows of the stored result are those of the answer. -/
theorem Shows.row_mem {watched : Watched} (hshows : Shows watched) {result : CqlResult}
    (hresult : watched.tracked.stmt.result = some result) {n : Nat} {row : CqlRow}
    (hrow : result.rows[n]? = some row) : row ∈ watched.rows := by
  have hopened : watched.tracked.opened = true := by
    rw [hshows.cursor.opened, hresult]
    exact Option.some_ne_none result
  obtain ⟨-, same, hsame, hrows⟩ := hshows.result hopened
  rw [hresult, Option.some_inj] at hsame
  rw [← hrows, ← hsame]
  exact List.mem_of_getElem? hrow

theorem shows_start : Shows start where
  cursor := inv_prepared
  fits := by
    intro columns hsome
    cases hsome
  narrow := List.forall_mem_nil _
  result := fun hopened => by cases hopened
  missing := fun _ => rfl
  allocated := fun hne => absurd rfl hne
  current := fun hcurrent => by cases hcurrent

/-! ## One call -/

section

variable {unparse : Bytes → Bytes} {watched after : Watched}

/-- The parts of the invariant that every call keeps for the same reason. -/
theorem shows_common {event : Event} (hshows : Shows watched) (hserved : Served watched event)
    (hnext : watched.next unparse event = some after) :
    Inv after.tracked ∧ after.tracked.stmt.Fits ∧
      ∀ row ∈ after.rows, row.columns.length < 2 ^ 31 := by
  obtain ⟨htracked, hrows, -⟩ := Watched.next_eq_some hnext
  obtain ⟨value, -, hafter⟩ := CursorSafety.next_eq_some htracked
  refine ⟨inv_next hshows.cursor htracked, ?_, ?_⟩
  · rw [hafter]
    exact Stmt.call_fits unparse event.1 hshows.fits event.2
  · rw [hrows]
    exact hserved.narrow

variable (unparse) in
theorem call_execute_columns (conn : Conn) (stmt : Stmt) (query : Query) (replies : Replies) :
    (stmt.call unparse conn (.execute query replies)).stmt.columns = stmt.columns ∧
      (stmt.call unparse conn (.execute query replies)).stmt.columnCount = stmt.columnCount := by
  simp only [Stmt.call]
  rcases hcall : pdoCassandraStmtExecute conn stmt query replies with
    ⟨outcome, middle, left⟩
  exact pdoCassandraStmtExecute_columns hcall

variable (unparse) in
theorem call_execute_executed {conn : Conn} {stmt : Stmt} {query : Query} {replies : Replies}
    (hexecuted : stmt.executed = true ∨
      (stmt.call unparse conn (.execute query replies)).exit = .ret 1) :
    (stmt.call unparse conn (.execute query replies)).stmt.executed = true := by
  simp only [Stmt.call] at hexecuted ⊢
  rcases hcall : pdoCassandraStmtExecute conn stmt query replies with
    ⟨outcome, middle, left⟩
  rw [hcall] at hexecuted
  rw [pdoCassandraStmtExecute_executed hcall]
  simpa using hexecuted

/-- An execute leaves the columns, and opens what it is answered with. -/
theorem shows_execute {conn : Conn} {query : Query} {replies : Replies}
    (hshows : Shows watched) (hserved : Served watched (conn, .execute query replies))
    (hnext : watched.next unparse (conn, .execute query replies) = some after) :
    Shows after := by
  obtain ⟨htracked, hrows, hshown⟩ := Watched.next_eq_some hnext
  obtain ⟨value, hret, hafter⟩ := CursorSafety.next_eq_some htracked
  obtain ⟨hcolumns, hcount⟩ :=
    call_execute_columns unparse conn watched.tracked.stmt query replies
  obtain ⟨hcursor, hfits, hnarrow⟩ := shows_common hshows hserved hnext
  have hsame : after.shown = watched.shown := hshown
  refine
    { cursor := hcursor
      fits := hfits
      narrow := hnarrow
      result := ?_
      missing := ?_
      allocated := ?_
      current := ?_ }
  · intro hopened
    rw [hafter] at hopened ⊢
    rw [hrows]
    cases hanswered : answeredWithRows conn (.execute query replies) with
    | true =>
        obtain ⟨result, hquery, hresult⟩ :=
          Stmt.call_execute_rows unparse conn watched.tracked.stmt hanswered
        have hone := Stmt.call_execute_answered unparse conn watched.tracked.stmt hanswered
        refine ⟨call_execute_executed unparse (Or.inr hone), result, hresult, ?_⟩
        simp only [Watched.rowsAfter, hanswered, if_true, hquery]
    | false =>
        obtain ⟨hkept, -⟩ :=
          Stmt.call_execute_kept unparse conn watched.tracked.stmt hanswered
        rw [hanswered, Bool.or_false] at hopened
        obtain ⟨hexecuted, result, hresult, hsameRows⟩ := hshows.result hopened
        refine ⟨call_execute_executed unparse (Or.inl hexecuted), result, hkept.trans hresult, ?_⟩
        simp only [Watched.rowsAfter, hanswered, Bool.false_eq_true, if_false, hsameRows]
  · rw [hafter, hsame]
    exact fun hnone => hshows.missing (hcolumns.symm.trans hnone)
  · rw [hafter, hsame, hcount]
    exact fun hne => hshows.allocated fun hnone => hne (hcolumns.trans hnone)
  · rw [hafter]
    intro hcurrent
    cases hcurrent

/-- A fetch shows nothing of the row that it finds. -/
theorem shows_fetch {conn : Conn} (hshows : Shows watched)
    (hserved : Served watched (conn, .fetch))
    (hnext : watched.next unparse (conn, .fetch) = some after) : Shows after := by
  obtain ⟨htracked, -, hshown⟩ := Watched.next_eq_some hnext
  obtain ⟨value, hret, hafter⟩ := CursorSafety.next_eq_some htracked
  obtain ⟨hcursor, hfits, hnarrow⟩ := shows_common hshows hserved hnext
  rcases hcall : pdoCassandraStmtFetch watched.tracked.stmt with ⟨exit, left⟩
  simp only [Stmt.call, hcall] at hret
  have hstmt : after.tracked.stmt = left := by
    rw [hafter]
    simp only [Stmt.call, hcall]
  obtain ⟨hopened, hsameRows⟩ :=
    Watched.next_kept (fun query replies hcall => by cases hcall) hnext
  have hcurrent : after.tracked.current = decide (value = 1) := by
    rw [hafter]
    rfl
  cases pdoCassandraStmtFetch_exit hcall with
  | nullResult hresult => cases hret
  | undescribed hresult hrow hcolumns hshort => cases hret
  | exhausted hresult hrow =>
      cases hret
      have hsame : after.shown = watched.shown := by
        rw [hshown, hcurrent]
        rfl
      refine
        { cursor := hcursor
          fits := hfits
          narrow := hnarrow
          result := ?_
          missing := ?_
          allocated := ?_
          current := fun htrue => ?_ }
      · rw [hstmt, hopened, hsameRows]
        exact hshows.result
      · rw [hstmt, hsame]
        exact hshows.missing
      · rw [hstmt, hsame]
        exact hshows.allocated
      · rw [hcurrent] at htrue
        cases htrue
  | @fetched result row hresult hrow hcolumns =>
      cases hret
      have hnone : after.shown = none := by
        rw [hshown, hcurrent]
        rfl
      have hmem := hshows.row_mem hresult hrow
      refine
        { cursor := hcursor
          fits := hfits
          narrow := hnarrow
          result := ?_
          missing := fun _ => hnone
          allocated := ?_
          current := fun _ => ⟨row, ?_, ?_, ?_, ?_⟩ }
      · rw [hstmt, hopened, hsameRows]
        exact hshows.result
      · rw [hstmt]
        exact fun hne => absurd rfl hne
      · rw [hstmt]
        simp only [Stmt.row, hresult, hrow]
      · rw [hsameRows]
        exact hmem
      · rw [hstmt]
        exact Int32.toInt_ofNat_of_lt (hshows.narrow row hmem)
      · rw [hstmt]
        exact fun hne => absurd rfl hne

/-- The array is missing together with the row that it is for. -/
theorem shown_reads (conn : Conn) {call : StmtCall} (hreads : call.readsRow = true)
    {row : CqlRow} (hrow : watched.tracked.stmt.row = .ok row)
    (hmissing : watched.tracked.stmt.columns = none → watched.shown = none)
    (hallocated : watched.tracked.stmt.columns ≠ none → watched.shown = some row)
    (current : Bool) :
    ((watched.tracked.stmt.call unparse conn call).stmt.columns = none →
        watched.shownAfter current (conn, call) = none) ∧
      ((watched.tracked.stmt.call unparse conn call).stmt.columns ≠ none →
        watched.shownAfter current (conn, call) = some row) := by
  cases call with
  | execute query replies | fetch => cases hreads
  | allocColumns =>
      simp only [Stmt.call, Stmt.allocColumns, Watched.shownAfter, hrow]
      cases hcolumns : watched.tracked.stmt.columns with
      | none =>
          rw [hmissing hcolumns]
          exact ⟨fun hnone => absurd hnone (Option.some_ne_none _), fun _ => rfl⟩
      | some columns =>
          rw [hallocated (by simp [hcolumns])]
          exact ⟨fun hnone => by simp [hcolumns] at hnone, fun _ => rfl⟩
  | describe colno heap =>
      obtain ⟨columns, hframe, hlength⟩ :=
        pdoCassandraStmtDescribe_frame unparse heap conn.H watched.tracked.stmt colno
      have hsame : columns = none ↔ watched.tracked.stmt.columns = none := by
        rw [← Option.map_eq_none_iff (f := List.length), hlength, Option.map_eq_none_iff]
      simp only [Stmt.call, hframe, Watched.shownAfter]
      exact ⟨fun hnone => hmissing (hsame.mp hnone),
        fun hne => hallocated fun hnone => hne (hsame.mpr hnone)⟩
  | getCol colno heap => exact ⟨hmissing, hallocated⟩

/-- Reading a row fills in the entries of what is shown, once PDO has allocated them. -/
theorem shows_reads {conn : Conn} {call : StmtCall} (hreads : call.readsRow = true)
    (hshows : Shows watched) (hserved : Served watched (conn, call))
    (hnext : watched.next unparse (conn, call) = some after) : Shows after := by
  obtain ⟨htracked, -, hshown⟩ := Watched.next_eq_some hnext
  obtain ⟨value, hret, hafter⟩ := CursorSafety.next_eq_some htracked
  obtain ⟨hcursor, hfits, hnarrow⟩ := shows_common hshows hserved hnext
  obtain ⟨columns, hframe⟩ := Stmt.call_frame unparse conn watched.tracked.stmt hreads
  obtain ⟨row, hrow, hmem, hcount, hwas⟩ := hshows.current (hserved.legal.2 hreads)
  have hstmt : after.tracked.stmt = { watched.tracked.stmt with columns } := by
    rw [hafter, ← hframe]
  have hquiet : ∀ query replies, call ≠ .execute query replies := by
    rintro query replies rfl
    cases hreads
  obtain ⟨hopened, hsameRows⟩ := Watched.next_kept hquiet hnext
  have hsizes := @shown_reads unparse _ conn _ hreads _ hrow hshows.missing hwas
    after.tracked.current
  rw [hframe, ← hshown] at hsizes
  refine
    { cursor := hcursor
      fits := hfits
      narrow := hnarrow
      result := ?_
      missing := ?_
      allocated := ?_
      current := fun _ => ⟨row, ?_, ?_, ?_, ?_⟩ }
  · rw [hstmt, hopened, hsameRows]
    exact hshows.result
  · rw [hstmt]
    exact hsizes.1
  · rw [hstmt]
    exact fun hne => ⟨row, hsizes.2 hne, hcount⟩
  · rw [hstmt]
    exact hrow
  · rw [hsameRows]
    exact hmem
  · rw [hstmt]
    exact hcount
  · rw [hstmt]
    exact hsizes.2

theorem shows_next {event : Event} (hshows : Shows watched) (hserved : Served watched event)
    (hnext : watched.next unparse event = some after) : Shows after := by
  obtain ⟨conn, call⟩ := event
  cases call with
  | execute query replies => exact shows_execute hshows hserved hnext
  | fetch => exact shows_fetch hshows hserved hnext
  | allocColumns | describe colno heap | getCol colno heap =>
      exact shows_reads rfl hshows hserved hnext

end

/-! ## What `col_meta` accepts -/

/--
Metadata is found for the entries of `stmt->columns` alone, which on a current row
are the columns that describe and get_col find.
-/
structure AcceptsColumns (unparse : Bytes → Bytes) (tracked : Tracked) : Prop where
  entries : ∀ colno : Int64, 0 ≤ colno.toInt →
    (pdoCassandraStmtColMeta tracked.stmt colno.toInt = true ↔
      tracked.stmt.columns ≠ none ∧ colno.toInt < tracked.stmt.columnCount.toInt)
  reads : tracked.current = true → ∀ (H : DbHandle) (heap : Heap) (colno : Int32),
    0 ≤ colno.toInt →
      (pdoCassandraStmtColMeta tracked.stmt colno.toInt = true ↔
        (pdoCassandraStmtDescribe unparse heap H tracked.stmt colno).1 = .ret 1) ∧
      (pdoCassandraStmtColMeta tracked.stmt colno.toInt = true ↔
        (pdoCassandraStmtGetCol heap H tracked.stmt colno).1 = .ret 1)

/-- The result has as many rows as the row that is shown has columns. -/
def RowsMatch (watched : Watched) : Prop :=
  watched.rows.length = watched.width

/-- `col_meta` looks at the number of rows. -/
theorem colMeta_iff {watched : Watched} (hshows : Shows watched)
    (hopened : watched.tracked.opened = true) {colno : Int} (hlow : 0 ≤ colno)
    (hhigh : colno < 2 ^ 63) :
    pdoCassandraStmtColMeta watched.tracked.stmt colno = true ↔
      colno < watched.rows.length := by
  obtain ⟨hexecuted, result, hresult, hrows⟩ := hshows.result hopened
  have hsize : sizeT colno = colno.toNat := by
    unfold sizeT
    omega
  simp only [pdoCassandraStmtColMeta, hexecuted, hresult, hrows, hsize, Bool.not_true,
    Bool.false_eq_true, if_false, decide_eq_true_eq]
  omega

/-- The entries of `stmt->columns` are those of the row that is shown. -/
theorem entries_iff {watched : Watched} (hshows : Shows watched) {colno : Int}
    (hlow : 0 ≤ colno) :
    watched.tracked.stmt.columns ≠ none ∧
        colno < watched.tracked.stmt.columnCount.toInt ↔
      colno < watched.width := by
  by_cases hnone : watched.tracked.stmt.columns = none
  · rw [Watched.width, hshows.missing hnone, Option.elim_none]
    exact iff_of_false (fun hboth => hboth.1 hnone) (by omega)
  · obtain ⟨row, hshown, hcount⟩ := hshows.allocated hnone
    rw [Watched.width, hshown, hcount, Option.elim_some]
    exact and_iff_right hnone

theorem width_lt {watched : Watched} (hshows : Shows watched) : watched.width < 2 ^ 31 := by
  by_cases hnone : watched.tracked.stmt.columns = none
  · rw [Watched.width, hshows.missing hnone]
    exact Nat.two_pow_pos 31
  · obtain ⟨row, hshown, hcount⟩ := hshows.allocated hnone
    have hhigh := watched.tracked.stmt.columnCount.toInt_lt
    rw [Watched.width, hshown, Option.elim_some]
    omega

/-! ## What the calls on a current row accept -/

section

variable {stmt : Stmt} {row : CqlRow}

theorem describe_accepts_iff (unparse : Bytes → Bytes) (heap : Heap) (H : DbHandle)
    {columns : List PdoColumnData} (hrow : stmt.row = .ok row)
    (hwidth : row.columns.length < 2 ^ 31) (hcolumns : stmt.columns = some columns)
    (hlength : columns.length = row.columns.length) {colno : Int32}
    (hcolno : 0 ≤ colno.toInt) :
    (pdoCassandraStmtDescribe unparse heap H stmt colno).1 = .ret 1 ↔
      colno.toInt < row.columns.length := by
  by_cases hlt : colno.toInt < row.columns.length
  · have hcol := List.getElem?_eq_getElem (by omega : colno.toInt.toNat < row.columns.length)
    rw [pdoCassandraStmtDescribe_col unparse heap H hrow hwidth hcolumns hlength hcolno hcol]
    exact iff_of_true rfl hlt
  · have hout : ¬ (0 ≤ colno.toInt ∧ colno.toInt < row.columns.length) :=
      fun hboth => hlt hboth.2
    rw [pdoCassandraStmtDescribe_out unparse heap H hrow hwidth hout]
    exact iff_of_false (by simp) hlt

theorem getCol_accepts_iff (heap : Heap) (H : DbHandle) (hrow : stmt.row = .ok row)
    (hwidth : row.columns.length < 2 ^ 31) {colno : Int32} (hcolno : 0 ≤ colno.toInt) :
    (pdoCassandraStmtGetCol heap H stmt colno).1 = .ret 1 ↔
      colno.toInt < row.columns.length := by
  simp only [pdoCassandraStmtGetCol, hrow, getElem?_sizeT hwidth, if_pos hcolno]
  by_cases hlt : colno.toInt < row.columns.length
  · have hcol := List.getElem?_eq_getElem (by omega : colno.toInt.toNat < row.columns.length)
    simp only [hcol]
    exact iff_of_true trivial hlt
  · have hcol := List.getElem?_eq_none (by omega : row.columns.length ≤ colno.toInt.toNat)
    simp only [hcol]
    exact iff_of_false (by simp) hlt

end

/-! ## Runs -/

theorem rowsMatch_of_entries {watched : Watched} (hshows : Shows watched)
    (hopened : watched.tracked.opened = true)
    (hentries : ∀ colno : Int64, 0 ≤ colno.toInt →
      (pdoCassandraStmtColMeta watched.tracked.stmt colno.toInt = true ↔
        watched.tracked.stmt.columns ≠ none ∧
          colno.toInt < watched.tracked.stmt.columnCount.toInt)) :
    RowsMatch watched := by
  -- the smaller size is a column number on which the two bounds differ
  have hwidth := width_lt hshows
  let least := min watched.rows.length watched.width
  have hleast : least < 2 ^ 63 := by omega
  have hcolno : (Int64.ofNat least).toInt = least := Int64.toInt_ofNat_of_lt hleast
  have hiff := hentries (Int64.ofNat least) (by omega)
  rw [hcolno, colMeta_iff hshows hopened (by omega) (by omega),
    entries_iff hshows (by omega)] at hiff
  unfold RowsMatch
  omega

theorem reads_of_rowsMatch (unparse : Bytes → Bytes) {watched : Watched}
    (hshows : Shows watched) (hopened : watched.tracked.opened = true)
    (hmatch : RowsMatch watched) (hcurrent : watched.tracked.current = true)
    (H : DbHandle) (heap : Heap) {colno : Int32} (hlow : 0 ≤ colno.toInt) :
    (pdoCassandraStmtColMeta watched.tracked.stmt colno.toInt = true ↔
      (pdoCassandraStmtDescribe unparse heap H watched.tracked.stmt colno).1 = .ret 1) ∧
    (pdoCassandraStmtColMeta watched.tracked.stmt colno.toInt = true ↔
      (pdoCassandraStmtGetCol heap H watched.tracked.stmt colno).1 = .ret 1) := by
  obtain ⟨row, hrow, hmem, hcount, hwas⟩ := hshows.current hcurrent
  have hpos := List.length_pos_of_mem hmem
  -- the current row is one of the rows, so that something is shown
  have hne : watched.tracked.stmt.columns ≠ none := by
    intro hnone
    rw [hmatch, Watched.width, hshows.missing hnone, Option.elim_none] at hpos
    exact absurd hpos (Nat.lt_irrefl 0)
  obtain ⟨columns, hcolumns⟩ := Option.ne_none_iff_exists'.mp hne
  have hlength : columns.length = row.columns.length := by
    rw [hshows.fits columns hcolumns, hcount, Int.toNat_natCast]
  have hrows : watched.rows.length = row.columns.length := by
    rw [hmatch, Watched.width, hwas hne, Option.elim_some]
  have hwidth := hshows.narrow row hmem
  have hhigh := colno.toInt_lt
  rw [colMeta_iff hshows hopened hlow (by omega), hrows,
    describe_accepts_iff unparse heap H hrow hwidth hcolumns hlength hlow,
    getCol_accepts_iff heap H hrow hwidth hlow]
  exact ⟨Iff.rfl, Iff.rfl⟩

/--
In a state that a run reaches behind an answer with rows, `col_meta` accepts the
columns of the current row exactly when there are as many of them as there are rows.
-/
theorem colMeta_accepts_iff (unparse : Bytes → Bytes) {events : List Event}
    {watched : Watched} (hserved : EachStep (Watched.next unparse) Served start events)
    (hrun : run (Watched.next unparse) start events = some watched)
    (hopened : watched.tracked.opened = true) :
    AcceptsColumns unparse watched.tracked ↔ RowsMatch watched := by
  have hshows : Shows watched := run_invariant shows_next shows_start hserved hrun
  constructor
  · intro haccepts
    exact rowsMatch_of_entries hshows hopened haccepts.entries
  · intro hmatch
    refine ⟨fun colno hlow => ?_, fun hcurrent H heap colno hlow => ?_⟩
    · have hhigh := colno.toInt_lt
      rw [colMeta_iff hshows hopened hlow (by omega), entries_iff hshows hlow, hmatch]
    · exact reads_of_rowsMatch unparse hshows hopened hmatch hcurrent H heap hlow

theorem served_of_readsRow {unparse : Bytes → Bytes} {watched : Watched}
    (hcurrent : watched.tracked.current = true)
    (hnarrow : ∀ row ∈ watched.rows, row.columns.length < 2 ^ 31) {events : List Event}
    (hreads : ∀ event ∈ events, event.2.readsRow = true) :
    EachStep (Watched.next unparse) Served watched events := by
  induction events generalizing watched with
  | nil => trivial
  | cons event events ih =>
      obtain ⟨conn, call⟩ := event
      have hread := hreads _ List.mem_cons_self
      have hlegal := (@legal_of_readsRow unparse _ hcurrent _ hreads).1
      have hcall : ∀ query replies, call ≠ .execute query replies := by
        rintro query replies rfl
        cases hread
      refine ⟨⟨hlegal, ?_⟩, fun after hafter => ih ?_ ?_ fun other hmem =>
        hreads other (List.mem_cons_of_mem _ hmem)⟩
      · cases call with
        | execute query replies | fetch => cases hread
        | allocColumns | describe colno heap | getCol colno heap => exact hnarrow
      · obtain ⟨htracked, -, -⟩ := Watched.next_eq_some hafter
        obtain ⟨value, -, hsame⟩ := CursorSafety.next_eq_some htracked
        rw [hsame]
        cases call with
        | execute query replies | fetch => cases hread
        | allocColumns | describe colno heap | getCol colno heap => exact hcurrent
      · rw [(Watched.next_kept hcall hafter).2]
        exact hnarrow

/--
A `SELECT` answered with the rows, the fetch of the first one, and PDO's calls for the
first columns of it.
-/
def selectAndShow (rows : List CqlRow) (count : Nat) : List Event :=
  executeAndFetch selectQuery { type := .rows, rows } ++ readColumns count

theorem served_selectAndShow {rows : List CqlRow} {watched : Watched}
    (hnarrow : ∀ row ∈ rows, row.columns.length < 2 ^ 31)
    (hrun : run (Watched.next id) start (executeAndFetch selectQuery { type := .rows, rows }) =
      some watched)
    (hcurrent : watched.tracked.current = true) (count : Nat) :
    EachStep (Watched.next id) Served start (selectAndShow rows count) := by
  have hserved : EachStep (Watched.next id) Served start
      (executeAndFetch selectQuery { type := .rows, rows }) := by
    refine ⟨⟨⟨by simp, by simp [StmtCall.readsRow]⟩, hnarrow⟩, fun selected hselected => ?_⟩
    cases hselected
    exact ⟨⟨⟨fun _ => rfl, by simp [StmtCall.readsRow]⟩, hnarrow⟩, fun _ _ => trivial⟩
  have hshows := run_invariant shows_next shows_start hserved hrun
  exact hserved.append hrun
    (served_of_readsRow hcurrent hshows.narrow fun _ => readsRow_readColumns)

/-- A row of two columns. -/
def pairRow (first second : String) : CqlRow :=
  ⟨[⟨bytesOf "a", bytesOf first⟩, ⟨bytesOf "b", bytesOf second⟩]⟩

/-- Two rows of two columns, the first of which are described and read. -/
theorem colMeta_accepts_two_by_two :
    ∃ watched,
      run (Watched.next id) start (selectAndShow [pairRow "1" "2", pairRow "3" "4"] 2) =
        some watched ∧
      watched.tracked.current = true ∧ AcceptsColumns id watched.tracked := by
  have hserved : EachStep (Watched.next id) Served start
      (selectAndShow [pairRow "1" "2", pairRow "3" "4"] 2) :=
    served_selectAndShow (by decide) rfl rfl 2
  obtain ⟨watched, hrun, hopened, hcurrent, hmatch⟩ :
      ∃ watched,
        run (Watched.next id) start (selectAndShow [pairRow "1" "2", pairRow "3" "4"] 2) =
          some watched ∧
        watched.tracked.opened = true ∧ watched.tracked.current = true ∧ RowsMatch watched :=
    ⟨_, rfl, rfl, rfl, rfl⟩
  exact ⟨watched, hrun, hcurrent, (colMeta_accepts_iff id hserved hrun hopened).mpr hmatch⟩

/-- A row of one column. -/
def rowOf (value : String) : CqlRow :=
  ⟨[⟨bytesOf "b", bytesOf value⟩]⟩

/-- On the first of two rows of one column, column `1` has metadata and no entry. -/
theorem not_colMeta_accepts_two_rows :
    ∃ watched, EachStep (Watched.next id) Served start
        (selectAndShow [rowOf "1", rowOf "2"] 1) ∧
      run (Watched.next id) start (selectAndShow [rowOf "1", rowOf "2"] 1) = some watched ∧
      watched.tracked.opened = true ∧ watched.tracked.current = true ∧
      watched.tracked.stmt.columnCount = 1 ∧
      pdoCassandraStmtColMeta watched.tracked.stmt 1 = true ∧
      ¬ AcceptsColumns id watched.tracked := by
  have hserved : EachStep (Watched.next id) Served start
      (selectAndShow [rowOf "1", rowOf "2"] 1) :=
    served_selectAndShow (by decide) rfl rfl 1
  refine ⟨_, hserved, rfl, rfl, rfl, rfl, by decide, ?_⟩
  intro haccepts
  have hentry := ((haccepts.entries 1 (by decide)).mp (by decide)).2
  exact absurd hentry (by decide)

end PdoCassandra.Properties.ColumnMeta
