import PdoCassandra.Driver.Pdo
import PdoCassandra.Foundation.Cursor

/-!
# Fetching through a result

A statement whose executes are all answered with rows follows an abstract cursor:
the index is one behind the number of fetches, and the described columns are those
of one row or none at all.  The next fetch frees their names with `efree`, which some
of them do not come from.
-/

namespace PdoCassandra.Properties.FetchEnumeration

open PdoCassandra.Foundation
open PdoCassandra.Foundation.CString
open PdoCassandra.Driver
open PdoCassandra.Thrift

variable {unparse : Bytes → Bytes}

/-! ## Runs -/

/-- An execute that returns `1` and is answered with rows. -/
def Opens (unparse : Bytes → Bytes) (before : Stmt) (rows : List CqlRow)
    (stmt : Stmt) : Prop :=
  ∃ (conn : Conn) (query : Query) (replies : Replies) (result : CqlResult),
    (before.call unparse conn (.execute query replies)).exit = .ret 1 ∧
      (before.call unparse conn (.execute query replies)).stmt = stmt ∧
      recvExecuteCqlQuery replies.executeCqlQuery = .ok result ∧
      result.type = .rows ∧ result.rows = rows

/-- The widths that fit the `int` of `stmt->column_count`. -/
def NarrowRows (rows : List CqlRow) : Prop :=
  ∀ row ∈ rows, row.columns.length < 2 ^ 31

/-- A row in `stmt->columns`, and the definition that PDO has had it described by. -/
structure Shown where
  definition : Option CfDef
  row : CqlRow

/-- None of the names that are shown comes from `malloc`. -/
def ShowsPlain (shown : Option Shown) : Prop :=
  ∀ described, shown = some described → PlainRow described.definition described.row

/-- What PDO has described behind a fetch that finds a row. -/
def showCurrent (H : DbHandle) (stmt : Stmt) : Option Shown :=
  stmt.row.toOption.map fun row => ⟨H.cfDef stmt.columnFamily, row⟩

/--
A statement behind executes that were answered with rows and fetches that
returned, with or without PDO describing the columns.  The cursor starts over at
each execute, which leaves the columns that are shown.
-/
inductive CursorRun (unparse : Bytes → Bytes) :
    Stmt → Cursor CqlRow → Option Shown → Prop where
  | first {rows : List CqlRow} {stmt : Stmt} (hnarrow : NarrowRows rows)
      (hopens : Opens unparse cassandraHandlePreparer rows stmt) :
      CursorRun unparse stmt (.start rows) none
  | again {before stmt : Stmt} {cursor : Cursor CqlRow} {shown : Option Shown}
      {rows : List CqlRow} (hrun : CursorRun unparse before cursor shown)
      (hnarrow : NarrowRows rows) (hopens : Opens unparse before rows stmt) :
      CursorRun unparse stmt (.start rows) shown
  | fetch {before stmt : Stmt} {cursor : Cursor CqlRow} {shown : Option Shown}
      {value : Int} (hrun : CursorRun unparse before cursor shown)
      (hfetch : pdoCassandraStmtFetch before = (.ret value, stmt)) :
      CursorRun unparse stmt cursor.advance (if value = 1 then none else shown)
  | pdoFetch {before stmt : Stmt} {cursor : Cursor CqlRow} {shown : Option Shown}
      {value : Int} {H : DbHandle} {heaps : Nat → Heap}
      (hrun : CursorRun unparse before cursor shown)
      (hfetch : before.pdoFetch unparse H heaps = (.ret value, stmt)) :
      CursorRun unparse stmt cursor.advance
        (if value = 1 then showCurrent H stmt else shown)

/-! ## The invariant -/

/-- `stmt->columns` is `NULL`, or has one named entry for each column. -/
def DescribedColumns (stmt : Stmt) : Prop :=
  ∀ columns, stmt.columns = some columns →
    (columns.length : Int) = stmt.columnCount.toInt ∧ ∀ data ∈ columns, data.name ≠ none

/-- The names in `stmt->columns` are those of what is shown. -/
def ShowsNames (stmt : Stmt) : Option Shown → Prop
  | none => stmt.columns = none
  | some described =>
      ∃ columns, stmt.columns = some columns ∧
        ((∀ data ∈ columns, data.isForeign = false) ↔
          PlainRow described.definition described.row)

theorem ShowsNames.ownNames_iff {stmt : Stmt} {shown : Option Shown}
    (hshows : ShowsNames stmt shown) : stmt.OwnNames ↔ ShowsPlain shown := by
  cases shown with
  | none =>
      refine iff_of_true (fun columns hsome => ?_) fun described hsome => ?_
      · rw [show stmt.columns = none from hshows] at hsome
        cases hsome
      · cases hsome
  | some described =>
      obtain ⟨columns, hcolumns, hplain⟩ := hshows
      simp only [Stmt.OwnNames, ShowsPlain, hcolumns, Option.some.injEq, forall_eq']
      exact hplain

structure Tracks (stmt : Stmt) (cursor : Cursor CqlRow) (shown : Option Shown) : Prop where
  narrow : NarrowRows cursor.rows
  result : ∃ result, stmt.result = some result ∧ result.rows = cursor.rows
  rowCount : stmt.rowCount = cursor.rows.length
  /-- The index wraps with the number of fetches. -/
  index : stmt.index + 1 = Int32.ofNat cursor.fetched
  columns : DescribedColumns stmt
  names : ShowsNames stmt shown
  columnCount : cursor.fetched < 2 ^ 31 → ∀ row, cursor.current = some row →
    stmt.columnCount.toInt = row.columns.length

theorem tracks_opens {before stmt : Stmt} {rows : List CqlRow} {shown : Option Shown}
    (hnarrow : NarrowRows rows) (hcolumns : DescribedColumns before)
    (hnames : ShowsNames before shown) (hopens : Opens unparse before rows stmt) :
    Tracks stmt (.start rows) shown := by
  obtain ⟨conn, query, replies, result, hret, rfl, hquery, htype, rfl⟩ := hopens
  simp only [Stmt.call] at hret ⊢
  rcases hcall : pdoCassandraStmtExecute conn before query replies with
    ⟨outcome, after, left⟩
  rw [hcall] at hret
  obtain ⟨H, found, answered, -, -, -, hok, -, rfl⟩ :=
    pdoCassandraStmtExecute_success hcall hret
  rw [hquery] at hok
  cases hok
  simp only [Stmt.setResult, htype]
  exact
    { narrow := hnarrow
      result := ⟨result, rfl, rfl⟩
      rowCount := rfl
      index := show (-1 : Int32) + 1 = Int32.ofNat 0 by decide
      columns := hcolumns
      names := by
        cases shown with
        | none => exact hnames
        | some described => exact hnames
      columnCount := fun _ row hcurrent => by cases hcurrent }

section

variable {stmt left : Stmt} {cursor : Cursor CqlRow} {shown : Option Shown}

/-- The row that a fetch meets. -/
theorem tracks_next_row {result : CqlResult} (htracks : Tracks stmt cursor shown)
    (hresult : stmt.result = some result) (hfetched : cursor.fetched < 2 ^ 31) :
    result.rows[sizeT (stmt.index + 1).toInt]? = cursor.advance.current := by
  obtain ⟨same, hsame, hrows⟩ := htracks.result
  rw [hresult, Option.some.injEq] at hsame
  subst hsame
  rw [htracks.index, Int32.toInt_ofNat_of_lt hfetched, sizeT_ofNat (by omega), hrows,
    Cursor.current_advance]

/-- A fetch that returns does so with `1` from a row, and with `0` behind the last one. -/
theorem tracks_fetch {value : Int} (htracks : Tracks stmt cursor shown)
    (hfetch : pdoCassandraStmtFetch stmt = (.ret value, left)) :
    Tracks left cursor.advance (if value = 1 then none else shown) := by
  have hindex : stmt.index + 1 + 1 = Int32.ofNat (cursor.fetched + 1) := by
    rw [htracks.index, Int32.ofNat_add]
    rfl
  cases pdoCassandraStmtFetch_exit hfetch with
  | exhausted hresult hrow =>
      have hnames : ShowsNames { stmt with index := stmt.index + 1 } shown := by
        cases shown with
        | none => exact htracks.names
        | some described => exact htracks.names
      rw [if_neg (by decide : ¬ (0 : Int) = 1)]
      refine ⟨htracks.narrow, htracks.result, htracks.rowCount, hindex, htracks.columns,
        hnames, fun hfetched row hcurrent => ?_⟩
      rw [tracks_next_row htracks hresult (Nat.lt_of_succ_lt hfetched), hcurrent] at hrow
      cases hrow
  | @fetched result row hresult hrow hcolumns =>
      rw [if_pos rfl]
      refine ⟨htracks.narrow, htracks.result, htracks.rowCount, hindex,
        fun columns hnone => (by cases hnone), rfl, fun hfetched current hcurrent => ?_⟩
      have hmem : current ∈ cursor.advance.rows := Cursor.mem_of_current hcurrent
      rw [tracks_next_row htracks hresult (Nat.lt_of_succ_lt hfetched), hcurrent,
        Option.some.injEq] at hrow
      subst hrow
      exact Int32.toInt_ofNat_of_lt (htracks.narrow current hmem)

/-- The row behind a fetch that returned `1` is still to be described. -/
theorem fetched_row (htracks : Tracks stmt cursor shown)
    (hfetch : pdoCassandraStmtFetch stmt = (.ret 1, left)) :
    ∃ row, left.row = .ok row ∧ row.columns.length < 2 ^ 31 ∧ left.columns = none ∧
      left.columnCount.toInt = row.columns.length := by
  cases pdoCassandraStmtFetch_exit hfetch with
  | @fetched result row hresult hrow hcolumns =>
      obtain ⟨same, hsame, hrows⟩ := htracks.result
      rw [hresult, Option.some.injEq] at hsame
      subst hsame
      have hmem := List.mem_of_getElem? hrow
      rw [hrows] at hmem
      have hwidth := htracks.narrow row hmem
      refine ⟨row, ?_, hwidth, rfl, Int32.toInt_ofNat_of_lt hwidth⟩
      simp only [Stmt.row, hresult, hrow]

/-- PDO's description of the columns of a row. -/
theorem pdoFetch_of_fetched (htracks : Tracks stmt cursor shown)
    (hfetch : pdoCassandraStmtFetch stmt = (.ret 1, left)) (H : DbHandle)
    (heaps : Nat → Heap) :
    ∃ described : List PdoColumnData,
      stmt.pdoFetch unparse H heaps = (.ret 1, { left with columns := some described }) ∧
      DescribedColumns { left with columns := some described } ∧
      ShowsNames { left with columns := some described }
        (showCurrent H { left with columns := some described }) := by
  obtain ⟨row, hrow, hwidth, hcolumns, hcount⟩ := fetched_row htracks hfetch
  obtain ⟨described, hdescribe, hlength, hentries⟩ :=
    Stmt.describeColumns_eq unparse H heaps hrow hwidth hcolumns hcount
  refine ⟨described, by simp only [Stmt.pdoFetch, hfetch, hcolumns, hdescribe], ?_, ?_⟩
  · rintro columns hsome
    cases hsome
    refine ⟨by rw [hcount, hlength], fun data hdata hname => ?_⟩
    obtain ⟨i, hi⟩ := List.mem_iff_getElem?.mp hdata
    rw [hentries] at hi
    obtain ⟨col, -, hcol⟩ := Option.map_eq_some_iff.mp hi
    rw [← hcol] at hname
    cases hname
  · have hkept : Stmt.row { left with columns := some described } = .ok row := hrow
    rw [showCurrent, hkept]
    exact ⟨described, rfl, describedColumn_own_iff unparse H heaps hentries⟩

theorem pdoFetch_of_not_fetched {exit : Exit}
    (hfetch : pdoCassandraStmtFetch stmt = (exit, left)) (hexit : exit ≠ .ret 1)
    (H : DbHandle) (heaps : Nat → Heap) :
    stmt.pdoFetch unparse H heaps = (exit, left) := by
  unfold Stmt.pdoFetch
  rw [hfetch]
  split
  · rename_i heq
    cases heq
    exact absurd rfl hexit
  · rename_i hsame
    exact hsame.symm

theorem tracks_pdoFetch {value : Int} {H : DbHandle} {heaps : Nat → Heap}
    (htracks : Tracks stmt cursor shown)
    (hfetch : stmt.pdoFetch unparse H heaps = (.ret value, left)) :
    Tracks left cursor.advance (if value = 1 then showCurrent H left else shown) := by
  rcases hcall : pdoCassandraStmtFetch stmt with ⟨exit, middle⟩
  by_cases hexit : exit = .ret 1
  · subst hexit
    obtain ⟨described, hpdo, hdescribed, hnames⟩ :=
      @pdoFetch_of_fetched unparse _ _ _ _ htracks hcall H heaps
    rw [hpdo] at hfetch
    cases hfetch
    have hmiddle := tracks_fetch htracks hcall
    rw [if_pos rfl] at hmiddle ⊢
    exact { hmiddle with columns := hdescribed, names := hnames }
  · rw [pdoFetch_of_not_fetched hcall hexit] at hfetch
    cases hfetch
    have hmiddle := tracks_fetch htracks hcall
    have hvalue : value ≠ 1 := fun heq => hexit (congrArg Exit.ret heq)
    rw [if_neg hvalue] at hmiddle ⊢
    exact hmiddle

theorem CursorRun.tracks (hrun : CursorRun unparse stmt cursor shown) :
    Tracks stmt cursor shown := by
  induction hrun with
  | first hnarrow hopens =>
      have hnames : ShowsNames cassandraHandlePreparer none := rfl
      refine tracks_opens hnarrow (fun columns hsome => ?_) hnames hopens
      cases hsome
  | again hrun hnarrow hopens ih => exact tracks_opens hnarrow ih.columns ih.names hopens
  | fetch hrun hfetch ih => exact tracks_fetch ih hfetch
  | pdoFetch hrun hfetch ih => exact tracks_pdoFetch ih hfetch

end

/-! ## The current row -/

/-- The index points at the row that the last fetch delivered. -/
theorem tracks_row {stmt : Stmt} {cursor : Cursor CqlRow} {shown : Option Shown}
    {row : CqlRow} (htracks : Tracks stmt cursor shown) (hfetched : cursor.fetched < 2 ^ 31)
    (hcurrent : cursor.current = some row) : stmt.row = .ok row := by
  obtain ⟨rows, fetched⟩ := cursor
  cases fetched with
  | zero => cases hcurrent
  | succ before =>
      have hindex : stmt.index = Int32.ofNat before := by
        have hnext := htracks.index
        rw [Int32.ofNat_add] at hnext
        exact (Int32.add_left_inj 1).mp hnext
      obtain ⟨result, hresult, hrows⟩ := htracks.result
      have hrow : result.rows[before]? = some row := by
        rw [hrows]
        exact hcurrent
      have hbefore : before < 2 ^ 31 := Nat.lt_of_succ_lt hfetched
      simp only [Stmt.row, hresult, hindex, Int32.toInt_ofNat_of_lt hbefore,
        sizeT_ofNat (show before < 2 ^ 64 by omega), hrow]

/-- Described columns fill the array that PDO allocates. -/
theorem DescribedColumns.fits {stmt : Stmt} (hcolumns : DescribedColumns stmt) :
    stmt.Fits := by
  intro columns hsome
  have hlength := (hcolumns columns hsome).1
  omega

/--
Describe and get_col return `1` for the columns of a row and for no other column
number, and what they deliver is decoded from the column of that number.
-/
def ReadsRow (unparse : Bytes → Bytes) (stmt : Stmt) (row : CqlRow) : Prop :=
  ∀ (H : DbHandle) (heap : Heap) (colno : Int32),
    if 0 ≤ colno.toInt ∧ colno.toInt < stmt.columnCount.toInt then
      ∃ col left, row.columns[colno.toInt.toNat]? = some col ∧
        pdoCassandraStmtDescribe unparse heap H stmt.allocColumns colno = (.ret 1, left) ∧
        left.label colno =
          some (columnLabel unparse heap (H.cfDef stmt.columnFamily) col) ∧
        pdoCassandraStmtGetCol heap H stmt colno =
          (.ret 1, some (columnPtr heap (H.cfDef stmt.columnFamily) col))
    else
      pdoCassandraStmtDescribe unparse heap H stmt.allocColumns colno =
          (.ret 0, stmt.allocColumns) ∧
        pdoCassandraStmtGetCol heap H stmt colno = (.ret 0, none)

theorem readsRow {stmt : Stmt} {row : CqlRow} (hrow : stmt.row = .ok row)
    (hwidth : row.columns.length < 2 ^ 31) (hcolumns : DescribedColumns stmt)
    (hcount : stmt.columnCount.toInt = row.columns.length) :
    ReadsRow unparse stmt row := by
  intro H heap colno
  obtain ⟨columns, halloc, hlength⟩ := stmt.allocColumns_eq hcolumns.fits
  rw [hcount, Int.toNat_natCast] at hlength
  have hkept : stmt.allocColumns.row = .ok row := by
    rw [halloc]
    exact hrow
  rw [hcount]
  split
  · rename_i hrange
    have hlt : colno.toInt.toNat < row.columns.length := by omega
    have hcol : row.columns[colno.toInt.toNat]? = some row.columns[colno.toInt.toNat] :=
      List.getElem?_eq_getElem hlt
    have hdescribe := pdoCassandraStmtDescribe_col unparse heap H hkept hwidth
      (by rw [halloc]) hlength hrange.1 hcol
    rw [halloc] at hdescribe ⊢
    refine ⟨_, _, hcol, hdescribe, ?_, ?_⟩
    · rw [← hlength] at hlt
      simp only [Stmt.label, List.getElem?_set_self hlt, Option.bind_some, describeColumn]
      rfl
    · simp only [pdoCassandraStmtGetCol, hrow, getElem?_sizeT hwidth, if_pos hrange.1, hcol]
  · rename_i hrange
    refine ⟨pdoCassandraStmtDescribe_out unparse heap H hkept hwidth hrange, ?_⟩
    simp only [pdoCassandraStmtGetCol, hrow, getElem?_sizeT_eq_none hwidth hrange]

/-! ## The next fetch -/

section

variable {stmt : Stmt} {cursor : Cursor CqlRow} {shown : Option Shown}

/-- The next fetch frees its own names, if it comes to freeing any. -/
theorem tracks_freesOwn_iff (htracks : Tracks stmt cursor shown)
    (hfetched : cursor.fetched < 2 ^ 31) :
    stmt.FreesOwn ↔ (cursor.fetched + 1 ≤ cursor.rows.length → ShowsPlain shown) := by
  obtain ⟨result, hresult, -⟩ := htracks.result
  unfold Stmt.FreesOwn
  rw [htracks.names.ownNames_iff, ← cursor.advance_isSome_iff, Stmt.nextRow_eq hresult,
    tracks_next_row htracks hresult hfetched, ← Option.isSome_iff_ne_none]

theorem tracks_fetch_exit (htracks : Tracks stmt cursor shown)
    (hfetched : cursor.fetched < 2 ^ 31) (hfree : stmt.FreesOwn) :
    (pdoCassandraStmtFetch stmt).1 =
      .ret (if cursor.fetched + 1 ≤ cursor.rows.length then 1 else 0) := by
  obtain ⟨result, hresult, -⟩ := htracks.result
  have hrow := tracks_next_row htracks hresult hfetched
  have hleft := cursor.advance_isSome_iff
  rw [Stmt.fetch_eq htracks.columns.fits hfree]
  simp only [hresult, ← hleft]
  rw [hrow]
  cases cursor.advance.current with
  | none => rfl
  | some row => rfl

theorem tracks_pdoFetch_exit (htracks : Tracks stmt cursor shown) (H : DbHandle)
    (heaps : Nat → Heap) :
    (stmt.pdoFetch unparse H heaps).1 = (pdoCassandraStmtFetch stmt).1 := by
  rcases hcall : pdoCassandraStmtFetch stmt with ⟨exit, left⟩
  by_cases hexit : exit = .ret 1
  · subst hexit
    obtain ⟨described, hpdo, -⟩ := @pdoFetch_of_fetched unparse _ _ _ _ htracks hcall H heaps
    rw [hpdo]
  · rw [pdoFetch_of_not_fetched hcall hexit]

variable (unparse stmt cursor) in
/--
Fetching enumerates the rows of the last execute: the row count is their number,
the next fetch finds a row exactly while there is one left, the columns of a current
row are the ones that can be read, and `stmt->columns` fits `stmt->column_count`.
-/
structure Enumerates : Prop where
  rowCount : stmt.rowCount = cursor.rows.length
  fetch : cursor.fetched + 1 < 2 ^ 31 →
    (pdoCassandraStmtFetch stmt).1 =
        .ret (if cursor.fetched + 1 ≤ cursor.rows.length then 1 else 0) ∧
      ∀ H heaps, (stmt.pdoFetch unparse H heaps).1 =
        .ret (if cursor.fetched + 1 ≤ cursor.rows.length then 1 else 0)
  reads : cursor.fetched < 2 ^ 31 → ∀ row, cursor.current = some row →
    stmt.columnCount.toInt = row.columns.length ∧ ReadsRow unparse stmt row
  columns : DescribedColumns stmt

/--
In every state that a run reaches, fetching enumerates the rows exactly when no name
that is shown in front of another row comes from `malloc`.
-/
theorem CursorRun.enumerates_iff (hrun : CursorRun unparse stmt cursor shown) :
    Enumerates unparse stmt cursor ↔
      (cursor.fetched + 1 < 2 ^ 31 → cursor.fetched + 1 ≤ cursor.rows.length →
        ShowsPlain shown) := by
  have htracks := hrun.tracks
  constructor
  · intro henumerates hfetched
    rw [← tracks_freesOwn_iff htracks (Nat.lt_of_succ_lt hfetched)]
    by_contra hforeign
    have hexit := (henumerates.fetch hfetched).1
    rw [Stmt.fetch_foreign htracks.columns.fits hforeign] at hexit
    cases hexit
  · intro hplain
    refine ⟨htracks.rowCount, fun hfetched => ?_, fun hfetched row hcurrent => ?_,
      htracks.columns⟩
    · have hbound : cursor.fetched < 2 ^ 31 := Nat.lt_of_succ_lt hfetched
      have hfree := (tracks_freesOwn_iff htracks hbound).mpr (hplain hfetched)
      have hexit := tracks_fetch_exit htracks hbound hfree
      exact ⟨hexit, fun H heaps => (tracks_pdoFetch_exit htracks H heaps).trans hexit⟩
    · have hcount := htracks.columnCount hfetched row hcurrent
      have hwidth := htracks.narrow row (Cursor.mem_of_current hcurrent)
      exact ⟨hcount, readsRow (tracks_row htracks hfetched hcurrent) hwidth
        htracks.columns hcount⟩

end

/-- A handle whose column family `t` has names of one type. -/
def namedBy (comparatorType : Bytes) : Conn where
  H := ⟨bytesOf "ks", fun _ => some ⟨bytesOf "ks", [{ name := bytesOf "t", comparatorType }]⟩⟩
  server := bareServer

/-- A `SELECT` on that handle which is answered with rows. -/
theorem opens_namedBy (comparatorType : Bytes) (before : Stmt) (rows : List CqlRow) :
    Opens id before rows
      (before.call id (namedBy comparatorType) (.execute
        ⟨bytesOf "SELECT a FROM t", bytesOf "\n", by decide, by decide⟩
        { executeCqlQuery := .message { success := some { type := .rows, rows } } })).stmt :=
  ⟨_, _, _, _, rfl, rfl, rfl, rfl, rfl⟩

/-- A fetch that returns, and PDO's description of the columns behind it. -/
theorem CursorRun.pdoFetched {before : Stmt} {cursor : Cursor CqlRow} {shown : Option Shown}
    {value : Int} (H : DbHandle) (hrun : CursorRun id before cursor shown)
    (hexit : (before.pdoFetch id H fun _ => Heap.zeros).1 = .ret value) :
    CursorRun id (before.pdoFetch id H fun _ => Heap.zeros).2 cursor.advance
      (if value = 1 then showCurrent H (before.pdoFetch id H fun _ => Heap.zeros).2
        else shown) :=
  hrun.pdoFetch (Prod.ext hexit rfl)

/-- A row whose columns have these names. -/
def rowNamed (names : List String) : CqlRow :=
  ⟨names.map fun name => ⟨bytesOf name, bytesOf "1"⟩⟩

/--
Rows of one and two columns, the first of which is described; then a second execute, with
rows of three columns, of one, and of none.
-/
theorem enumerates_widths :
    ∃ stmt shown,
      CursorRun id stmt ⟨[rowNamed ["a", "b", "c"], rowNamed ["a"], rowNamed []], 1⟩ shown ∧
      Enumerates id stmt ⟨[rowNamed ["a", "b", "c"], rowNamed ["a"], rowNamed []], 1⟩ := by
  have hfirst := CursorRun.pdoFetched (namedBy (marshal "UTF8Type")).H
    (CursorRun.first (by simp [NarrowRows, rowNamed]) (opens_namedBy (marshal "UTF8Type")
      cassandraHandlePreparer [rowNamed ["a"], rowNamed ["a", "b"]])) rfl
  have hsecond := CursorRun.pdoFetched (namedBy (marshal "UTF8Type")).H
    (CursorRun.again hfirst (by simp [NarrowRows, rowNamed]) (opens_namedBy (marshal "UTF8Type")
      _ [rowNamed ["a", "b", "c"], rowNamed ["a"], rowNamed []])) rfl
  refine ⟨_, _, hsecond, hsecond.enumerates_iff.mpr fun _ _ described hshown => ?_⟩
  cases hshown
  intro found hfound col hcol
  cases hfound
  exact fun hhex => absurd hhex.2.1 (by decide)

/-- Two rows with the name `61` of type bytes: the label of the first is freed by `efree`. -/
theorem not_enumerates_hex :
    ∃ stmt shown, CursorRun id stmt ⟨[rowNamed ["61"], rowNamed ["61"]], 1⟩ shown ∧
      stmt.label 0 = some (bytesOf "a") ∧
      (pdoCassandraStmtFetch stmt).1 = .fault .foreignFree ∧
      ¬ Enumerates id stmt ⟨[rowNamed ["61"], rowNamed ["61"]], 1⟩ := by
  have hrun := CursorRun.pdoFetched (namedBy (marshal "BytesType")).H
    (CursorRun.first (by simp [NarrowRows, rowNamed]) (opens_namedBy (marshal "BytesType")
      cassandraHandlePreparer [rowNamed ["61"], rowNamed ["61"]])) rfl
  refine ⟨_, _, hrun, by decide, by decide, fun henumerates => ?_⟩
  have hexit := (henumerates.fetch (by decide)).1
  exact absurd hexit (by decide)

end PdoCassandra.Properties.FetchEnumeration
