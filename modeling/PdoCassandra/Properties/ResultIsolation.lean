import PdoCassandra.Driver.Pdo

/-!
# An open result among other calls

A statement keeps its rows and its place in them whatever else happens on the
handle.  What its columns are called and read as is decided at the time of the
reading, by the definition that the handle then has for the column family.
-/

namespace PdoCassandra.Properties.ResultIsolation

open PdoCassandra.Foundation.CString
open PdoCassandra.Foundation.Transition
open PdoCassandra.Driver
open PdoCassandra.Thrift

variable {unparse : Bytes → Bytes}

/-! ## Decoding inside a column -/

/-- The name is long enough for its decoder, or is not decoded. -/
def NameBounded (cfdef : CfDef) (name : Bytes) : Prop :=
  name = bytesOf "KEY" ∨
    (isLong cfdef.comparatorType = true → 7 ≤ name.length) ∧
      (cfdef.comparatorType = marshal "UUIDType" → 15 ≤ name.length) ∧
      (cfdef.comparatorType = marshal "BytesType" →
        ∀ decoded, hexBytes (cstr name) = some decoded → 0 ∈ decoded)

/-- The class by which `get_col` decodes a value. -/
def validator (cfdef : CfDef) (name : Bytes) : Bytes :=
  if name = bytesOf "KEY" then cfdef.keyValidationClass
  else ((CfDef.columnDef cfdef name).map ColumnDef.validationClass).getD []

/-- The text of a decoded integer: `ltoa` for a `KEY`, PHP's conversion otherwise. -/
def longText (name : Bytes) (n : BitVec 64) : Bytes :=
  if name = bytesOf "KEY" then cstr (ltoa n 10) else convertToString n

theorem columnPtr_of_raw (heap : Heap) {cfdef : CfDef} {col : Column}
    (hraw : isLong (validator cfdef col.name) = false) :
    columnPtr heap (some cfdef) col = estrdup col.value := by
  unfold columnPtr decodeValue
  unfold validator at hraw
  by_cases hkey : col.name = bytesOf "KEY"
  · simp only [if_pos hkey] at hraw
    simp only [Option.bind_some, if_pos hkey, hraw, Bool.false_eq_true, if_false]
    split <;> rfl
  · simp only [if_neg hkey] at hraw
    simp only [Option.bind_some, if_neg hkey]
    cases hdef : CfDef.columnDef cfdef col.name with
    | none => rfl
    | some columnDef =>
        simp only [hdef, Option.map_some, Option.getD_some] at hraw
        simp only [hraw, Bool.false_eq_true, if_false]
        split <;> rfl

/-- The pointer that `get_col` leaves for a decoded integer. -/
theorem columnPtr_of_long (heap : Heap) {cfdef : CfDef} {col : Column}
    (hlong : isLong (validator cfdef col.name) = true) :
    columnPtr heap (some cfdef) col =
      { text := longText col.name (deserializeLong heap col.value)
        storage := if col.name = bytesOf "KEY" then .deadBlock else .emalloc } := by
  unfold columnPtr decodeValue longText
  unfold validator at hlong
  by_cases hkey : col.name = bytesOf "KEY"
  · simp only [if_pos hkey] at hlong
    simp only [Option.bind_some, if_pos hkey, hlong, isText_of_isLong hlong,
      Bool.false_eq_true, if_false, if_true, Option.getD_some]
  · simp only [if_neg hkey] at hlong
    simp only [Option.bind_some, if_neg hkey]
    cases hdef : CfDef.columnDef cfdef col.name with
    | none =>
        rw [hdef] at hlong
        exact absurd hlong (by decide)
    | some columnDef =>
        simp only [hdef, Option.map_some, Option.getD_some] at hlong
        simp only [hlong, isText_of_isLong hlong, Bool.false_eq_true, if_false, if_true,
          Option.getD_some]

def ValueBounded (cfdef : CfDef) (col : Column) : Prop :=
  isLong (validator cfdef col.name) = true → 7 ≤ col.value.length

/-- A bounded name has one label, whatever stands behind it in memory. -/
theorem columnName_of_bounded {cfdef : Option CfDef} {col : Column}
    (hbounded : ∀ found, cfdef = some found → NameBounded found col.name)
    (heap other : Heap) :
    columnName unparse heap cfdef col = columnName unparse other cfdef col := by
  cases cfdef with
  | none => simp only [columnName, Option.bind_none]
  | some cfdef =>
      by_cases hkey : col.name = bytesOf "KEY"
      · rw [columnName_key unparse heap hkey, columnName_key unparse other hkey]
      · obtain ⟨hlong, huuid, hbytes⟩ := (hbounded cfdef rfl).resolve_left hkey
        rcases comparator_cases cfdef with hislong | hisuuid | hisbytes | hraw
        · rw [columnName_long unparse heap hkey hislong,
            columnName_long unparse other hkey hislong,
            deserializeLong_of_le (hlong hislong) heap other]
        · rw [columnName_uuid unparse heap hkey hisuuid,
            columnName_uuid unparse other hkey hisuuid,
            uuidBytes_of_le (huuid hisuuid) heap other]
        · rw [columnName_bytes unparse heap hkey hisbytes,
            columnName_bytes unparse other hkey hisbytes]
          cases hdecoded : hexBytes (cstr col.name) with
          | none => rfl
          | some decoded =>
              simp only [cstr_append_of_mem (hbytes hisbytes decoded hdecoded)]
        · rw [columnName_raw unparse heap hraw, columnName_raw unparse other hraw]

theorem columnPtr_of_bounded {cfdef : Option CfDef} {col : Column}
    (hbounded : ∀ found, cfdef = some found → ValueBounded found col)
    (heap other : Heap) :
    columnPtr heap cfdef col = columnPtr other cfdef col := by
  cases cfdef with
  | none => simp only [columnPtr, Option.bind_none]
  | some cfdef =>
      cases hlong : isLong (validator cfdef col.name) with
      | true =>
          rw [columnPtr_of_long heap hlong, columnPtr_of_long other hlong,
            deserializeLong_of_le (hbounded cfdef rfl hlong) heap other]
      | false => rw [columnPtr_of_raw heap hlong, columnPtr_of_raw other hlong]

/-- The decoder stays inside the value, and leaves the text where PDO can read it. -/
def ValueSettled (cfdef : CfDef) (col : Column) : Prop :=
  ValueBounded cfdef col ∧ ¬ LongKey cfdef col.name

theorem columnValue_of_settled {cfdef : Option CfDef} {col : Column}
    (hsettled : ∀ found, cfdef = some found → ValueSettled found col)
    (heap other : Heap) :
    columnValue heap cfdef col = columnValue other cfdef col := by
  have hlive (found : CfDef) (hfound : cfdef = some found) := (hsettled found hfound).2
  rw [columnValue_of_live hlive heap, columnValue_of_live hlive other,
    columnPtr_of_bounded (fun found hfound => (hsettled found hfound).1) heap other]

/-! ## The cursor of a statement -/

/-- Two statements stand at the same place of the same result. -/
structure SameCursor (stmt other : Stmt) : Prop where
  result : stmt.result = other.result
  index : stmt.index = other.index
  columnCount : stmt.columnCount = other.columnCount

theorem SameCursor.row {stmt other : Stmt} (hsame : SameCursor stmt other) :
    stmt.row = other.row := by
  simp only [Stmt.row, hsame.result, hsame.index]

theorem SameCursor.symm {stmt other : Stmt} (hsame : SameCursor stmt other) :
    SameCursor other stmt :=
  ⟨hsame.result.symm, hsame.index.symm, hsame.columnCount.symm⟩

theorem SameCursor.trans {stmt other third : Stmt} (hsame : SameCursor stmt other)
    (hnext : SameCursor other third) : SameCursor stmt third :=
  ⟨hsame.result.trans hnext.result, hsame.index.trans hnext.index,
    hsame.columnCount.trans hnext.columnCount⟩

theorem SameCursor.nextRow {stmt other : Stmt} (hsame : SameCursor stmt other) :
    stmt.nextRow = other.nextRow := by
  simp only [Stmt.nextRow, hsame.result, hsame.index]

/-- The statement behind a fetch that goes through. -/
def advance (stmt : Stmt) : Stmt :=
  match stmt.nextRow with
  | none => { stmt with index := stmt.index + 1 }
  | some row =>
      { stmt with
        index := stmt.index + 1
        columns := none
        columnCount := Int32.ofNat row.columns.length }

theorem SameCursor.advance {stmt other : Stmt} (hsame : SameCursor stmt other) :
    SameCursor (ResultIsolation.advance stmt) (ResultIsolation.advance other) := by
  unfold ResultIsolation.advance
  rw [hsame.nextRow, hsame.index]
  cases other.nextRow with
  | none => exact ⟨hsame.result, rfl, hsame.columnCount⟩
  | some row => exact ⟨hsame.result, rfl, rfl⟩

/-- A fetch that returns has gone through. -/
theorem fetch_advance {stmt left : Stmt} {value : Int}
    (hcall : pdoCassandraStmtFetch stmt = (.ret value, left)) : left = advance stmt := by
  cases pdoCassandraStmtFetch_exit hcall with
  | exhausted hresult hrow => simp only [advance, Stmt.nextRow_eq hresult, hrow]
  | fetched hresult hrow hcolumns => simp only [advance, Stmt.nextRow_eq hresult, hrow]

/-- What a fetch returns, and where it leaves the statement, when it frees its own names. -/
theorem fetch_of_freesOwn {stmt : Stmt} (hfits : stmt.Fits) (hfree : stmt.FreesOwn) :
    pdoCassandraStmtFetch stmt =
      (if stmt.result = none then .fault .nullResult
        else if stmt.nextRow = none then .ret 0 else .ret 1, advance stmt) := by
  rw [Stmt.fetch_eq hfits hfree]
  unfold advance
  cases hresult : stmt.result with
  | none => simp [Stmt.nextRow, hresult]
  | some result =>
      rw [Stmt.nextRow_eq hresult]
      cases hrow : result.rows[sizeT (stmt.index + 1).toInt]? with
      | none => simp only [hrow, reduceCtorEq, if_false, if_true]
      | some row => simp only [hrow, reduceCtorEq, if_false]

/-- At one place, two fetches that free their own names return the same. -/
theorem SameCursor.fetch {stmt other : Stmt} (hsame : SameCursor stmt other)
    (hfits : stmt.Fits) (hother : other.Fits) (hfree : stmt.FreesOwn)
    (hotherFree : other.FreesOwn) :
    (pdoCassandraStmtFetch stmt).1 = (pdoCassandraStmtFetch other).1 := by
  rw [fetch_of_freesOwn hfits hfree, fetch_of_freesOwn hother hotherFree, hsame.result,
    hsame.nextRow]

/-- The statement behind a number of them. -/
def advanced (stmt : Stmt) : Nat → Stmt
  | 0 => stmt
  | count + 1 => advance (advanced stmt count)

theorem advanced_advanced (stmt : Stmt) (count more : Nat) :
    advanced (advanced stmt count) more = advanced stmt (count + more) := by
  induction more with
  | zero => rfl
  | succ more ih => rw [advanced, ih, ← Nat.add_assoc, advanced]

theorem advance_frame (stmt : Stmt) :
    (advance stmt).result = stmt.result ∧ (advance stmt).columnFamily = stmt.columnFamily := by
  unfold advance
  cases stmt.nextRow with
  | none => exact ⟨rfl, rfl⟩
  | some row => exact ⟨rfl, rfl⟩

/-- Fetching moves the index, but keeps what it is an index into. -/
theorem advanced_frame (stmt : Stmt) (count : Nat) :
    (advanced stmt count).result = stmt.result ∧
      (advanced stmt count).columnFamily = stmt.columnFamily := by
  induction count with
  | zero => exact ⟨rfl, rfl⟩
  | succ count ih =>
      obtain ⟨hresult, hfamily⟩ := advance_frame (advanced stmt count)
      exact ⟨hresult.trans ih.1, hfamily.trans ih.2⟩

/-! ## Rows that are read at once -/

section

variable (unparse : Bytes → Bytes) (H : DbHandle) (heaps : Nat → Nat → Heap)

/-- The statement behind a number of PDO's fetches with no other call in between. -/
def readAtOnce (stmt : Stmt) : Nat → Stmt
  | 0 => stmt
  | count + 1 => ((readAtOnce stmt count).pdoFetch unparse H (heaps count)).2

/-- They free no name that `malloc` has allocated. -/
def ReadsOwn (stmt : Stmt) (count : Nat) : Prop :=
  ∀ k < count, (readAtOnce unparse H heaps stmt k).FreesOwn

variable {unparse H heaps} {stmt : Stmt}

/-- PDO's description of each row does not move the cursor. -/
theorem readAtOnce_sameCursor (hfits : stmt.Fits) {count : Nat}
    (hown : ReadsOwn unparse H heaps stmt count) :
    (readAtOnce unparse H heaps stmt count).Fits ∧
      SameCursor (readAtOnce unparse H heaps stmt count) (advanced stmt count) ∧
      (readAtOnce unparse H heaps stmt count).columnFamily = stmt.columnFamily := by
  induction count with
  | zero => exact ⟨hfits, ⟨rfl, rfl, rfl⟩, rfl⟩
  | succ count ih =>
      obtain ⟨hbefore, hsame, hfamily⟩ := ih fun k hk => hown k (Nat.lt_succ_of_lt hk)
      obtain ⟨columns, hframe, hafter⟩ :=
        Stmt.pdoFetch_frame unparse H (heaps count) hbefore
      rw [fetch_of_freesOwn hbefore (hown count (Nat.lt_succ_self count))] at hframe
      have hmoved := hsame.advance
      have hkept := (advance_frame (readAtOnce unparse H heaps stmt count)).2.trans hfamily
      unfold readAtOnce
      refine ⟨hafter, ?_, ?_⟩
      · rw [hframe]
        exact ⟨hmoved.result, hmoved.index, hmoved.columnCount⟩
      · rw [hframe]
        exact hkept

end

/-! ## Calls in between -/

/-- A call that gives the statement neither another result nor another life. -/
def KeepsResult (i : Nat) (system : System) (call : Call) : Prop :=
  call ≠ .prepare i ∧
    ∀ query replies, call = .stmt i (.execute query replies) →
      answeredWithRows system.conn (.execute query replies) = false

/-- How often a call fetches from a statement. -/
def fetchesOf (i : Nat) : Call → Nat
  | .stmt j .fetch => if i = j then 1 else 0
  | _ => 0

/-- How often a list of calls fetches from a statement. -/
def fetchCount (i : Nat) : List Call → Nat
  | [] => 0
  | call :: calls => fetchesOf i call + fetchCount i calls

/-- Every array of columns is one that PDO has allocated. -/
def AllFit (system : System) : Prop :=
  ∀ i, (system.stmts i).Fits

theorem allFit_next {system next : System} {call : Call} (hfit : AllFit system)
    (hnext : system.next unparse call = some next) : AllFit next := by
  intro i
  rw [system.next_stmts unparse hnext i]
  unfold System.stmtAfter
  split
  · exact hfit i
  · split
    · intro columns hsome
      cases hsome
    · exact hfit i
  · split
    · exact Stmt.call_fits unparse system.conn (hfit i) _
    · exact hfit i

/-- The place in a result moves with the statement's own fetches only. -/
theorem sameCursor_call {conn : Conn} {stmt other : Stmt} {call : StmtCall} {value : Int}
    (hsame : SameCursor stmt other)
    (hret : (stmt.call unparse conn call).exit = .ret value)
    (hrows : ∀ query replies, call = .execute query replies →
      answeredWithRows conn (.execute query replies) = false) (i : Nat) :
    SameCursor (stmt.call unparse conn call).stmt
      (advanced other (fetchesOf i (.stmt i call))) := by
  by_cases hreads : call.readsRow = true
  · obtain ⟨columns, hframe⟩ := Stmt.call_frame unparse conn stmt hreads
    rw [hframe]
    cases call with
    | execute query replies | fetch => cases hreads
    | allocColumns | describe colno heap | getCol colno heap =>
        exact ⟨hsame.result, hsame.index, hsame.columnCount⟩
  · cases call with
    | execute query replies =>
        obtain ⟨hresult, hindex⟩ :=
          Stmt.call_execute_kept unparse conn stmt (hrows query replies rfl)
        have hcount : (stmt.call unparse conn (.execute query replies)).stmt.columnCount =
            stmt.columnCount := (pdoCassandraStmtExecute_columns rfl).2
        exact ⟨hresult.trans hsame.result, hindex.trans hsame.index,
          hcount.trans hsame.columnCount⟩
    | fetch =>
        have hfetch : pdoCassandraStmtFetch stmt = (.ret value, (pdoCassandraStmtFetch stmt).2) :=
          Prod.ext hret rfl
        have hafter : (stmt.call unparse conn .fetch).stmt = advance stmt := fetch_advance hfetch
        rw [hafter]
        simp only [fetchesOf, if_true]
        exact hsame.advance
    | allocColumns | describe colno heap | getCol colno heap => exact absurd rfl hreads

theorem sameCursor_next {system next : System} {call : Call} {i : Nat} {stmt : Stmt}
    (hsame : SameCursor (system.stmts i) stmt) (hkeeps : KeepsResult i system call)
    (hnext : system.next unparse call = some next) :
    SameCursor (next.stmts i) (advanced stmt (fetchesOf i call)) := by
  obtain ⟨value, hcall⟩ := system.next_eq_some unparse hnext
  rw [system.next_stmts unparse hnext i]
  cases call with
  | exec sql replies => exact hsame
  | prepare j =>
      have hother : i ≠ j := fun hown => hkeeps.1 (congrArg Call.prepare hown.symm)
      simp only [System.stmtAfter, if_neg hother]
      exact hsame
  | stmt j call =>
      by_cases hown : i = j
      · subst hown
        have hret : (system.effect unparse i call).exit = .ret value :=
          congrArg Prod.fst hcall
        simp only [System.stmtAfter, if_true]
        refine sameCursor_call hsame hret (fun query replies hexecute => ?_) i
        exact hkeeps.2 query replies (congrArg (Call.stmt i) hexecute)
      · have hnone : fetchesOf i (.stmt j call) = 0 := by
          cases call <;> simp [fetchesOf, hown]
        simp only [System.stmtAfter, if_neg hown, hnone]
        exact hsame

theorem sameCursor_run {system final : System} {calls : List Call} {i : Nat} {stmt : Stmt}
    (hsame : SameCursor (system.stmts i) stmt)
    (hkeeps : EachStep (System.next unparse) (KeepsResult i) system calls)
    (hrun : run (System.next unparse) system calls = some final) :
    SameCursor (final.stmts i) (advanced stmt (fetchCount i calls)) := by
  induction calls generalizing system stmt with
  | nil =>
      cases hrun
      exact hsame
  | cons call calls ih =>
      obtain ⟨next, hnext, hrest⟩ := Option.bind_eq_some_iff.mp hrun
      have hafter := sameCursor_next hsame hkeeps.1 hnext
      have hplace := ih hafter (hkeeps.2 next hnext) hrest
      rw [advanced_advanced] at hplace
      exact hplace

/-! ## What is delivered -/

/-- What PDO gets to see of a call. -/
def reply (effect : Effect) : Exit × Option Bytes :=
  (effect.exit, effect.text)

/-- A decoder stays inside the column that is read. -/
def ColumnBounded (Bounded : CfDef → Column → Prop) (cfdef : Option CfDef)
    (stmt : Stmt) (colno : Int32) : Prop :=
  ∀ row, stmt.row = .ok row → ∀ col, row.columns[sizeT colno.toInt]? = some col →
    ∀ found, cfdef = some found → Bounded found col

/-- Describe on a statement whose array PDO has allocated. -/
theorem reply_describe {stmt : Stmt} {columns : List PdoColumnData}
    (hcolumns : stmt.columns = some columns) (conn : Conn) (colno : Int32) (heap : Heap) :
    reply (stmt.call unparse conn (.describe colno heap)) =
      match stmt.row with
      | .error why => (.fault why, none)
      | .ok row =>
          match row.columns[sizeT colno.toInt]? with
          | none => (.ret 0, none)
          | some col =>
              if 0 ≤ colno.toInt ∧ colno.toInt < columns.length then
                (.ret 1,
                  some (columnLabel unparse heap (conn.H.cfDef stmt.columnFamily) col))
              else (.fault .columnIndex, none) := by
  cases hrow : stmt.row with
  | error why => simp [reply, Stmt.call, pdoCassandraStmtDescribe, hrow]
  | ok row =>
      cases hcol : row.columns[sizeT colno.toInt]? with
      | none => simp [reply, Stmt.call, pdoCassandraStmtDescribe, hrow, hcol]
      | some col =>
          by_cases hroom : 0 ≤ colno.toInt ∧ colno.toInt < columns.length
          · have hlt : colno.toInt.toNat < columns.length := by omega
            simp only [reply, Stmt.call, pdoCassandraStmtDescribe, hrow, hcol, hcolumns,
              if_pos hroom, Stmt.label, List.getElem?_set_self hlt, if_true,
              Option.bind_some, describeColumn]
            rfl
          · simp only [reply, Stmt.call, pdoCassandraStmtDescribe, hrow, hcol, hcolumns,
              if_neg hroom]
            rfl

theorem reply_getCol (conn : Conn) (stmt : Stmt) (colno : Int32) (heap : Heap) :
    reply (stmt.call unparse conn (.getCol colno heap)) =
      match stmt.row with
      | .error why => (.fault why, none)
      | .ok row =>
          match row.columns[sizeT colno.toInt]? with
          | none => (.ret 0, none)
          | some col =>
              (.ret 1, some (columnValue heap (conn.H.cfDef stmt.columnFamily) col)) := by
  cases hrow : stmt.row with
  | error why => simp [reply, Stmt.call, pdoCassandraStmtGetCol, hrow]
  | ok row =>
      cases hcol : row.columns[sizeT colno.toInt]? with
      | none => simp [reply, Stmt.call, pdoCassandraStmtGetCol, hrow, hcol]
      | some col => simp [reply, Stmt.call, pdoCassandraStmtGetCol, hrow, hcol, columnValue]

section

variable {stmt other : Stmt} {conn otherConn : Conn} {colno : Int32}

/-- Under one definition, a column at one place of one result has one label. -/
theorem reply_describe_same (hfits : stmt.Fits) (hother : other.Fits)
    (hsame : SameCursor stmt other)
    (hdefinition : conn.H.cfDef stmt.columnFamily = otherConn.H.cfDef other.columnFamily)
    (hbounded : ColumnBounded (fun cfdef col => NameBounded cfdef col.name)
      (otherConn.H.cfDef other.columnFamily) other colno) (heap otherHeap : Heap) :
    reply (stmt.allocColumns.call unparse conn (.describe colno heap)) =
      reply (other.allocColumns.call unparse otherConn (.describe colno otherHeap)) := by
  obtain ⟨columns, halloc, hlength⟩ := stmt.allocColumns_eq hfits
  obtain ⟨entries, hotherAlloc, hotherLength⟩ := other.allocColumns_eq hother
  have hwidth : columns.length = entries.length := by
    rw [hlength, hotherLength, hsame.columnCount]
  have hkept : Stmt.row { stmt with columns := some columns } = other.row := hsame.row
  have hotherKept : Stmt.row { other with columns := some entries } = other.row := rfl
  rw [halloc, hotherAlloc, reply_describe rfl, reply_describe rfl, hkept, hotherKept]
  cases hrow : other.row with
  | error why => rfl
  | ok row =>
      cases hcol : row.columns[sizeT colno.toInt]? with
      | none => simp only [hcol]
      | some col =>
          simp only [hcol, hdefinition, hwidth, columnLabel,
            columnName_of_bounded (hbounded row hrow col hcol) heap otherHeap]

/-- Likewise for its value. -/
theorem reply_getCol_same (hsame : SameCursor stmt other)
    (hdefinition : conn.H.cfDef stmt.columnFamily = otherConn.H.cfDef other.columnFamily)
    (hsettled : ColumnBounded ValueSettled (otherConn.H.cfDef other.columnFamily) other colno)
    (heap otherHeap : Heap) :
    reply (stmt.call unparse conn (.getCol colno heap)) =
      reply (other.call unparse otherConn (.getCol colno otherHeap)) := by
  rw [reply_getCol, reply_getCol, hsame.row]
  cases hrow : other.row with
  | error why => rfl
  | ok row =>
      cases hcol : row.columns[sizeT colno.toInt]? with
      | none => simp only [hcol]
      | some col =>
          simp only [hcol, hdefinition,
            columnValue_of_settled (hsettled row hrow col hcol) heap otherHeap]

end

/-! ## Runs -/

/-- The definition by which a statement's columns are decoded at the moment. -/
def definition (system : System) (i : Nat) : Option CfDef :=
  system.conn.H.cfDef (system.stmts i).columnFamily

/-- With the keyspace and the column family of the execute, its definition is back. -/
theorem definition_run {selected final : System} {calls : List Call} {i : Nat}
    {ksdef : KsDef}
    (hcached : selected.conn.H.ksDefs selected.conn.H.keyspace = some ksdef)
    (hrun : run (System.next unparse) selected calls = some final)
    (hkeyspace : final.conn.H.keyspace = selected.conn.H.keyspace)
    (hfamily : (final.stmts i).columnFamily = (selected.stmts i).columnFamily) :
    definition final i = definition selected i := by
  have hkept := System.run_ksDefs unparse hcached hrun
  unfold definition DbHandle.cfDef
  rw [hkeyspace, hfamily, hkept, hcached]

/--
A statement in `final` against the same statement, with the same number of fetches
made at once behind its execute, in `selected`.
-/
structure ReadsAlike (unparse : Bytes → Bytes) (i : Nat) (selected final : System)
    (atOnce : Stmt) : Prop where
  fetch : (final.stmts i).FreesOwn → atOnce.FreesOwn →
    reply ((final.stmts i).call unparse final.conn .fetch) =
      reply (atOnce.call unparse selected.conn .fetch)
  describe : definition final i = definition selected i → ∀ colno,
    ColumnBounded (fun cfdef col => NameBounded cfdef col.name) (definition selected i)
      atOnce colno →
    ∀ heap heapAtOnce,
      reply ((final.stmts i).allocColumns.call unparse final.conn (.describe colno heap)) =
        reply (atOnce.allocColumns.call unparse selected.conn (.describe colno heapAtOnce))
  getCol : definition final i = definition selected i → ∀ colno,
    ColumnBounded ValueSettled (definition selected i) atOnce colno →
    ∀ heap heapAtOnce,
      reply ((final.stmts i).call unparse final.conn (.getCol colno heap)) =
        reply (atOnce.call unparse selected.conn (.getCol colno heapAtOnce))

/--
Whatever was called since a `SELECT`, its statement still has the rows and fetches
like one whose rows were fetched and described at once, while the fetches free their
own names.  While the definition of its column family is what it was at the execute,
and a decoder stays inside the column and leaves its text in live memory, so are the
labels and values that are read; a definition is what it was whenever the keyspace
and the column family are.
-/
theorem reads_isolated {conn : Conn} {earlier calls : List Call}
    {system selected final : System} {i : Nat} {query : Query} {replies : Replies}
    (hearlier : run (System.next unparse) ⟨conn, fun _ => cassandraHandlePreparer⟩ earlier =
      some system)
    (hrows : answeredWithRows system.conn (.execute query replies) = true)
    (hselect : system.next unparse (.stmt i (.execute query replies)) = some selected)
    (hkeeps : EachStep (System.next unparse) (KeepsResult i) selected calls)
    (hrun : run (System.next unparse) selected calls = some final) :
    (∃ result, recvExecuteCqlQuery replies.executeCqlQuery = .ok result ∧
      (final.stmts i).result = some result) ∧
    (∀ heaps, ReadsOwn unparse selected.conn.H heaps (selected.stmts i) (fetchCount i calls) →
      ReadsAlike unparse i selected final
        (readAtOnce unparse selected.conn.H heaps (selected.stmts i) (fetchCount i calls))) ∧
    (final.conn.H.keyspace = selected.conn.H.keyspace →
      (final.stmts i).columnFamily = (selected.stmts i).columnFamily →
      definition final i = definition selected i) := by
  have hprepared : AllFit ⟨conn, fun _ => cassandraHandlePreparer⟩ := by
    intro j columns hsome
    cases hsome
  have hsystem : AllFit system := run_preserves allFit_next hprepared hearlier
  have hselected := allFit_next hsystem hselect
  have hfinal := run_preserves allFit_next hselected hrun i
  have hstart : SameCursor (selected.stmts i) (selected.stmts i) := ⟨rfl, rfl, rfl⟩
  have hplace := sameCursor_run hstart hkeeps hrun
  have hanswered := Stmt.call_execute_answered unparse system.conn (system.stmts i) hrows
  obtain ⟨-, ksdef, hcached⟩ := system.next_execute unparse hanswered hselect
  refine ⟨?_, fun heaps hown => ?_, definition_run hcached hrun⟩
  · obtain ⟨result, hquery, hstored⟩ :=
      Stmt.call_execute_rows unparse system.conn (system.stmts i) hrows
    have hown : selected.stmts i =
        (system.effect unparse i (.execute query replies)).stmt := by
      rw [system.next_stmts unparse hselect i]
      simp only [System.stmtAfter, if_true]
    refine ⟨result, hquery, ?_⟩
    rw [hplace.result, (advanced_frame (selected.stmts i) (fetchCount i calls)).1, hown]
    exact hstored
  · obtain ⟨hatOnce, hcursor, hfamily⟩ := readAtOnce_sameCursor (hselected i) hown
    have hsame := hplace.trans hcursor.symm
    refine ⟨fun hfree hatOnceFree => ?_, fun hdefinition colno hbounded heap heapAtOnce => ?_,
      fun hdefinition colno hsettled heap heapAtOnce => ?_⟩
    · exact congrArg (fun exit => (exit, none)) (hsame.fetch hfinal hatOnce hfree hatOnceFree)
    · unfold definition at hdefinition hbounded
      rw [← hfamily] at hdefinition hbounded
      exact reply_describe_same hfinal hatOnce hsame hdefinition hbounded heap heapAtOnce
    · unfold definition at hdefinition hsettled
      rw [← hfamily] at hdefinition hsettled
      exact reply_getCol_same hsame hdefinition hsettled heap heapAtOnce

/-! ## Columns of type long -/

/-- A name of eight bytes, the number `7`. -/
def seven : Bytes := [0, 0, 0, 0, 0, 0, 0, 7]

/-- In the keyspace `ks`, a column family whose names are numbers, and the values of `7`. -/
def longFamily : CfDef where
  name := bytesOf "t"
  comparatorType := marshal "LongType"
  columnMetadata := [⟨seven, marshal "LongType"⟩]

/-- Two statements on a handle that has the keyspace in its cache, and no other. -/
def longColumns : System where
  conn.H.keyspace := bytesOf "ks"
  conn.H.ksDefs :=
    Function.update (fun _ => none) (bytesOf "ks") (some ⟨bytesOf "ks", [longFamily]⟩)
  conn.server := bareServer
  stmts _ := cassandraHandlePreparer

/-- A `SELECT` that is answered with rows. -/
def selectRows (query : Query) (rows : List CqlRow) : StmtCall :=
  .execute query { executeCqlQuery := .message { success := some { type := .rows, rows } } }

/-- A `SELECT` that finds the numbers `65` and `66`. -/
def selectLong : StmtCall :=
  selectRows ⟨bytesOf "SELECT n FROM t", bytesOf "\n", by decide, by decide⟩
    [⟨[⟨seven, [0, 0, 0, 0, 0, 0, 0, 65]⟩]⟩, ⟨[⟨seven, [0, 0, 0, 0, 0, 0, 0, 66]⟩]⟩]

/-- The program behind that `SELECT`. -/
def longSelected : System :=
  (longColumns.call id (.stmt 0 selectLong)).2

/-- The first row is described, the second one is fetched among calls of other kinds. -/
def otherCalls : List Call :=
  [.stmt 0 .fetch, .stmt 0 .allocColumns, .stmt 0 (.describe 0 Heap.zeros),
    .exec ⟨bytesOf "USE other", [], by decide, by decide⟩ {},
    .exec ⟨bytesOf "USE ks", [], by decide, by decide⟩ {},
    .stmt 1 (selectRows ⟨bytesOf "SELECT a FROM u", bytesOf "\n", by decide, by decide⟩
      [⟨[⟨bytesOf "a", bytesOf "1"⟩]⟩]),
    .stmt 1 .fetch, .stmt 0 .fetch]

/-- What is read behind these calls is what is read at once. -/
theorem reads_isolated_two_rows :
    ∃ final, run (System.next id) longSelected otherCalls = some final ∧
      ∀ heap heapAtOnce,
        reply ((final.stmts 0).allocColumns.call id final.conn (.describe 0 heap)) =
          reply ((readAtOnce id longSelected.conn.H (fun _ _ => Heap.zeros)
            (longSelected.stmts 0) 2).allocColumns.call id longSelected.conn
              (.describe 0 heapAtOnce)) ∧
        reply ((final.stmts 0).call id final.conn (.getCol 0 heap)) =
          reply ((readAtOnce id longSelected.conn.H (fun _ _ => Heap.zeros)
            (longSelected.stmts 0) 2).call id longSelected.conn (.getCol 0 heapAtOnce)) := by
  have hearlier : run (System.next id) longColumns [] = some longColumns := rfl
  have hrows : answeredWithRows longColumns.conn selectLong = true := by decide
  have hselect : longColumns.next id (.stmt 0 selectLong) = some longSelected := rfl
  have hkeeps : EachStep (System.next id) (KeepsResult 0) longSelected otherCalls := by
    refine EachStep.of_mem (fun call hmem system => ?_) longSelected
    simp only [otherCalls, List.mem_cons, List.not_mem_nil, or_false] at hmem
    rcases hmem with rfl | rfl | rfl | rfl | rfl | rfl | rfl | rfl
    all_goals exact ⟨by simp, by simp⟩
  refine ⟨_, rfl, fun heap heapAtOnce => ?_⟩
  have hown : ReadsOwn id longSelected.conn.H (fun _ _ => Heap.zeros) (longSelected.stmts 0)
      (fetchCount 0 otherCalls) := by
    intro k hk _ columns hcolumns
    have hsmall : k = 0 ∨ k = 1 := by
      have htwo : fetchCount 0 otherCalls = 2 := rfl
      omega
    rcases hsmall with rfl | rfl
    · cases hcolumns
    · cases hcolumns
      decide
  have hreads := (reads_isolated hearlier hrows hselect hkeeps rfl).2.1 _ hown
  constructor
  · refine hreads.describe rfl 0 ?_ _ _
    intro row hrow col hcol found hfound
    cases hrow
    cases hcol
    cases hfound
    exact Or.inr ⟨fun _ => by decide, fun huuid => absurd huuid (by decide),
      fun hbytes => absurd hbytes (by decide)⟩
  · refine hreads.getCol rfl 0 ?_ _ _
    intro row hrow col hcol found hfound
    cases hrow
    cases hcol
    cases hfound
    exact ⟨fun _ => by decide, by decide⟩

/-- A `USE` of another keyspace between a fetch and the reading of the column. -/
theorem not_reads_isolated_use :
    ∃ final,
      run (System.next id) longSelected
          [.stmt 0 .fetch, .exec ⟨bytesOf "USE other", [], by decide, by decide⟩ {}] =
        some final ∧
      reply ((final.stmts 0).call id final.conn (.getCol 0 Heap.zeros)) ≠
        reply ((readAtOnce id longSelected.conn.H (fun _ _ => Heap.zeros)
          (longSelected.stmts 0) 1).call id longSelected.conn (.getCol 0 Heap.zeros)) :=
  ⟨_, rfl, by decide⟩

end PdoCassandra.Properties.ResultIsolation
