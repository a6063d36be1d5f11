import PdoCassandra.Driver.Handle
import PdoCassandra.Driver.Util

/-!
# The statement methods of `cassandra_statement.cpp`

A statement reads its own result and row index, and the handle's keyspace and
schema cache at the time of the call.
-/

namespace PdoCassandra.Driver

open PdoCassandra.Foundation.CString
open PdoCassandra.Driver.CqlParser
open PdoCassandra.Thrift

/-! ## The statement -/

/-- `pdo_column_data`; `name` is `none` for `NULL`. -/
structure PdoColumnData where
  name : Option CharPtr := none
  namelen : Nat := 0
  maxlen : Nat := 0
  precision : Nat := 0
  paramType : Int := 0
  deriving DecidableEq

/-- `PDO_PARAM_STR`. -/
def pdoParamStr : Int := 2

/-- `pdo_cassandra_stmt` and the fields of `pdo_stmt_t` that the driver uses. -/
structure Stmt where
  result : Option CqlResult := none
  columnFamily : Bytes := []
  index : Int32 := 0
  rowCount : Int := 0
  columnCount : Int32 := 0
  /-- `none` for `NULL`. -/
  columns : Option (List PdoColumnData) := none
  /-- Set by PDO behind the first successful execute. -/
  executed : Bool := false
  deriving DecidableEq

/-- A statement as PDO allocates it, behind `cassandra_handle_preparer`. -/
def cassandraHandlePreparer : Stmt :=
  { columnFamily := [], columnCount := 0 }

/-- A column number converts to an index of a short list only when it is one. -/
theorem getElem?_sizeT {Entry : Type} {entries : List Entry}
    (hshort : entries.length < 2 ^ 31) (colno : Int32) :
    entries[sizeT colno.toInt]? =
      if 0 ≤ colno.toInt then entries[colno.toInt.toNat]? else none := by
  have hlow := colno.le_toInt
  have hhigh := colno.toInt_lt
  split
  · rename_i hnonneg
    have hsame : sizeT colno.toInt = colno.toInt.toNat := by
      unfold sizeT
      omega
    rw [hsame]
  · rename_i hneg
    apply List.getElem?_eq_none
    unfold sizeT
    omega

/-- A column number outside a short list. -/
theorem getElem?_sizeT_eq_none {Entry : Type} {entries : List Entry}
    (hshort : entries.length < 2 ^ 31) {colno : Int32}
    (hcolno : ¬ (0 ≤ colno.toInt ∧ colno.toInt < entries.length)) :
    entries[sizeT colno.toInt]? = none := by
  rw [getElem?_sizeT hshort]
  split
  · apply List.getElem?_eq_none
    omega
  · rfl

/-! ## `pdo_cassandra_stmt_execute` -/

/-- The schema of the current keyspace is described when it is not cached. -/
def cacheKeyspace (H : DbHandle) (replies : Replies) : Except TException DbHandle :=
  match H.ksDefs H.keyspace with
  | some _ => .ok H
  | none =>
      match recvDescribeKeyspace replies.describeKeyspace with
      | .ok ksdef =>
          .ok { H with ksDefs := Function.update H.ksDefs H.keyspace (some ksdef) }
      | .error e => .error e

/-- A described keyspace was missing; nothing else of the handle changes. -/
theorem cacheKeyspace_ok {H cached : DbHandle} {replies : Replies}
    (hcache : cacheKeyspace H replies = .ok cached) :
    (cached = H ∧ ∃ ksdef, H.ksDefs H.keyspace = some ksdef) ∨
      (H.ksDefs H.keyspace = none ∧
        ∃ ksdef, recvDescribeKeyspace replies.describeKeyspace = .ok ksdef ∧
          cached = { H with
            ksDefs := Function.update H.ksDefs H.keyspace (some ksdef) }) := by
  unfold cacheKeyspace at hcache
  cases hfind : H.ksDefs H.keyspace with
  | some ksdef =>
      simp only [hfind, Except.ok.injEq] at hcache
      exact Or.inl ⟨hcache.symm, ksdef, rfl⟩
  | none =>
      cases hdescribe : recvDescribeKeyspace replies.describeKeyspace with
      | ok ksdef =>
          simp only [hfind, hdescribe, Except.ok.injEq] at hcache
          exact Or.inr ⟨rfl, ksdef, rfl, hcache.symm⟩
      | error e => simp [hfind, hdescribe] at hcache

theorem cacheKeyspace_error {H : DbHandle} {replies : Replies} {e : TException} :
    cacheKeyspace H replies = .error e ↔
      H.ksDefs H.keyspace = none ∧
        recvDescribeKeyspace replies.describeKeyspace = .error e := by
  unfold cacheKeyspace
  cases H.ksDefs H.keyspace with
  | some ksdef => simp
  | none =>
      cases recvDescribeKeyspace replies.describeKeyspace with
      | ok ksdef => simp
      | error raised => simp

/-- The current keyspace is cached, or the server describes it. -/
def Described (H : DbHandle) (replies : Replies) : Prop :=
  H.ksDefs H.keyspace = none →
    ∃ ksdef, recvDescribeKeyspace replies.describeKeyspace = .ok ksdef

theorem described_iff (H : DbHandle) (replies : Replies) :
    Described H replies ↔ ∃ cached, cacheKeyspace H replies = .ok cached := by
  unfold Described cacheKeyspace
  cases H.ksDefs H.keyspace with
  | some ksdef => simp
  | none =>
      cases recvDescribeKeyspace replies.describeKeyspace with
      | ok ksdef => simp
      | error e => simp

theorem cacheKeyspace_keyspace {H cached : DbHandle} {replies : Replies}
    (hcache : cacheKeyspace H replies = .ok cached) : cached.keyspace = H.keyspace := by
  obtain ⟨rfl, -⟩ | ⟨-, ksdef, -, rfl⟩ := cacheKeyspace_ok hcache
  · rfl
  · rfl

/-- The assignment to `*S->column_family`, when the scanner finds a name. -/
def Stmt.setColumnFamily (stmt : Stmt) (cf : Option Bytes) : Stmt :=
  { stmt with columnFamily := cf.getD stmt.columnFamily }

/-- The `switch` on the type of the result. -/
def Stmt.setResult (stmt : Stmt) (result : CqlResult) : Stmt :=
  match result.type with
  | .rows =>
      { stmt with result := some result, index := -1, rowCount := result.rows.length }
  | .int => { stmt with rowCount := result.num }
  | .void => { stmt with rowCount := 0 }
  | .other _ => stmt

def pdoCassandraStmtExecute (conn : Conn) (stmt : Stmt) (query : Query)
    (replies : Replies) : Outcome × Conn × Stmt :=
  match cacheKeyspace conn.H replies with
  | .error e => (catchInvalidRequest 0 e, conn, stmt)
  | .ok H =>
      let conn := { conn with H }
      match scanColumnfamily query.memory with
      | none => ({ exit := .fault .scanOverrun }, conn, stmt)
      | some ⟨cf, _⟩ =>
          let stmt := stmt.setColumnFamily cf
          match scanKeyspace query.memory with
          | none => ({ exit := .fault .scanOverrun }, conn, stmt)
          | some ⟨some keyspace, _⟩ =>
              match conn.server.setKeyspace replies keyspace with
              | (.ok (), server) =>
                  -- a `USE` that went through returns the failure status
                  ({ exit := .ret 0 }, ⟨{ conn.H with keyspace }, server⟩, stmt)
              | (.error e, server) =>
                  (catchInvalidRequest 0 e, { conn with server }, stmt)
          | some ⟨none, _⟩ =>
              match conn.server.executeCqlQuery replies query.text with
              | (.ok result, server) =>
                  ({ exit := .ret 1 }, { conn with server }, stmt.setResult result)
              | (.error e, server) =>
                  (catchInvalidRequest 0 e, { conn with server }, stmt)

/-! ## `pdo_cassandra_stmt_fetch` -/

/-- The name of an entry does not come from `emalloc`. -/
def PdoColumnData.isForeign (data : PdoColumnData) : Bool :=
  data.name.any fun name => name.storage ≠ .emalloc

/-- The loop over `efree(cols[i].name)`, for a number of columns; `NULL` may be freed. -/
def efreeNames : Nat → List PdoColumnData → Except Fault Unit
  | 0, _ => .ok ()
  | _ + 1, [] => .error .columnIndex
  | count + 1, data :: cols =>
      if data.isForeign then .error .foreignFree else efreeNames count cols

theorem efreeNames_eq_ok_iff {count : Nat} {cols : List PdoColumnData} :
    efreeNames count cols = .ok () ↔
      count ≤ cols.length ∧ ∀ data ∈ cols.take count, data.isForeign = false := by
  induction count generalizing cols with
  | zero => simp [efreeNames]
  | succ count ih =>
      cases cols with
      | nil => simp [efreeNames]
      | cons data cols =>
          cases hforeign : data.isForeign with
          | true => simp [efreeNames, hforeign]
          | false => simp [efreeNames, hforeign, ih]

/-- The loop fails on an entry that is missing, or on a name that is not its own. -/
theorem efreeNames_error {count : Nat} {cols : List PdoColumnData} {why : Fault}
    (hfree : efreeNames count cols = .error why) :
    why = .columnIndex ∧ cols.length < count ∨ why = .foreignFree := by
  induction count generalizing cols with
  | zero => cases hfree
  | succ count ih =>
      cases cols with
      | nil =>
          cases hfree
          exact Or.inl ⟨rfl, Nat.succ_pos count⟩
      | cons data cols =>
          rw [efreeNames] at hfree
          split at hfree
          · cases hfree
            exact Or.inr rfl
          · exact (ih hfree).imp_left fun hshort => ⟨hshort.1, Nat.succ_lt_succ hshort.2⟩

/-- The loop over `cols[i].name`, and the fields it leaves behind. -/
def Stmt.unDescribe (stmt : Stmt) : Except Fault Stmt :=
  match stmt.columns with
  | none => .ok stmt
  | some cols =>
      match efreeNames stmt.columnCount.toInt.toNat cols with
      | .error why => .error why
      | .ok () => .ok { stmt with columns := none, columnCount := 0 }

def pdoCassandraStmtFetch (stmt : Stmt) : Exit × Stmt :=
  let stmt := { stmt with index := stmt.index + 1 }
  match stmt.result with
  | none => (.fault .nullResult, stmt)
  | some result =>
      match result.rows[sizeT stmt.index.toInt]? with
      -- the index has reached the number of rows
      | none => (.ret 0, stmt)
      | some row =>
          match stmt.unDescribe with
          | .error why => (.fault why, stmt)
          | .ok stmt =>
              (.ret 1, { stmt with columnCount := Int32.ofNat row.columns.length })

/-! ## Decoding under a schema -/

/-- The name of a validator class. -/
def marshal (className : String) : Bytes :=
  bytesOf ("org.apache.cassandra.db.marshal." ++ className)

/-- `UTF8Type` and `AsciiType` are treated alike. -/
def isText (className : Bytes) : Bool :=
  className = marshal "UTF8Type" || className = marshal "AsciiType"

def isLong (className : Bytes) : Bool :=
  className = marshal "LongType"

theorem isText_of_isLong {className : Bytes} (hlong : isLong className = true) :
    isText className = false := by
  obtain rfl : className = marshal "LongType" := of_decide_eq_true hlong
  decide

/-- The definition at which the loops over `cf_defs` stop. -/
def DbHandle.cfDef (H : DbHandle) (columnFamily : Bytes) : Option CfDef :=
  (H.ksDefs H.keyspace).bind fun ksdef =>
    ksdef.cfDefs.find? fun cfdef => cfdef.name = columnFamily

/-- The definition at which the loops over `column_metadata` stop. -/
def CfDef.columnDef (cfdef : CfDef) (name : Bytes) : Option ColumnDef :=
  cfdef.columnMetadata.find? fun columnDef => name = columnDef.name

/-- `name` behind the loops of `describe`; `none` for `NULL`. -/
def decodeName (unparse : Bytes → Bytes) (heap : Heap) (cfdef : CfDef)
    (name : Bytes) : Option CharPtr :=
  if name = bytesOf "KEY" then some (estrdup name)
  else if isText cfdef.comparatorType then some (estrdup name)
  else if isLong cfdef.comparatorType then
    some ⟨convertToString (deserializeLong heap name), .emalloc⟩
  else if cfdef.comparatorType = marshal "UUIDType" then
    some ⟨cstr (unparse (uuidBytes heap name)), .emalloc⟩
  else if cfdef.comparatorType = marshal "BytesType" then
    -- `hexToString` allocates with `malloc`, where the other branches use `emalloc`
    (hexToString heap (cstr name)).map fun block => ⟨cstr block, .malloc⟩
  else none

/--
`*ptr` behind the loops of `get_col`, which PDO hands over as `NULL`.  For a `KEY` of
type long it points into the array `value`, which ends with the branch.
-/
def decodeValue (heap : Heap) (cfdef : CfDef) (col : Column) : Option CharPtr :=
  if col.name = bytesOf "KEY" then
    if isText cfdef.keyValidationClass then some (estrdup col.value)
    else if isLong cfdef.keyValidationClass then
      some ⟨cstr (ltoa (deserializeLong heap col.value) 10), .deadBlock⟩
    else none
  else
    match CfDef.columnDef cfdef col.name with
    | none => none
    | some columnDef =>
        if isText columnDef.validationClass then some (estrdup col.value)
        else if isLong columnDef.validationClass then
          some ⟨convertToString (deserializeLong heap col.value), .emalloc⟩
        else some (estrdup col.value)

/-- The `name` that `describe` stores for a column. -/
def columnName (unparse : Bytes → Bytes) (heap : Heap) (cfdef : Option CfDef)
    (col : Column) : CharPtr :=
  (cfdef.bind fun cfdef => decodeName unparse heap cfdef col.name).getD (estrdup col.name)

/-- The label that PDO reads there. -/
def columnLabel (unparse : Bytes → Bytes) (heap : Heap) (cfdef : Option CfDef)
    (col : Column) : Bytes :=
  (columnName unparse heap cfdef col).text

/-- The `*ptr` that `get_col` hands over for a column. -/
def columnPtr (heap : Heap) (cfdef : Option CfDef) (col : Column) : CharPtr :=
  (cfdef.bind fun cfdef => decodeValue heap cfdef col).getD (estrdup col.value)

/-- The value that PDO reads there. -/
def columnValue (heap : Heap) (cfdef : Option CfDef) (col : Column) : Bytes :=
  (columnPtr heap cfdef col).read heap.dead

/-- The names that `describe` takes from `hexToString`, and so from `malloc`. -/
def HexName (cfdef : CfDef) (name : Bytes) : Prop :=
  name ≠ bytesOf "KEY" ∧ cfdef.comparatorType = marshal "BytesType" ∧
    (hexBytes (cstr name)).isSome = true

instance (cfdef : CfDef) (name : Bytes) : Decidable (HexName cfdef name) :=
  inferInstanceAs (Decidable (_ ∧ _))

/-- None of the names of a row is. -/
def PlainRow (cfdef : Option CfDef) (row : CqlRow) : Prop :=
  ∀ found, cfdef = some found → ∀ col ∈ row.columns, ¬ HexName found col.name

section

variable (unparse : Bytes → Bytes) (heap : Heap) {cfdef : CfDef} {col : Column}

theorem columnName_key (hkey : col.name = bytesOf "KEY") :
    columnName unparse heap (some cfdef) col = estrdup col.name := by
  rw [columnName, Option.bind_some, decodeName, if_pos hkey, Option.getD_some]

theorem columnName_long (hkey : col.name ≠ bytesOf "KEY")
    (hlong : isLong cfdef.comparatorType = true) :
    columnName unparse heap (some cfdef) col =
      ⟨convertToString (deserializeLong heap col.name), .emalloc⟩ := by
  have htext : ¬ isText cfdef.comparatorType = true := by
    rw [isText_of_isLong hlong]
    exact Bool.false_ne_true
  rw [columnName, Option.bind_some, decodeName, if_neg hkey, if_neg htext, if_pos hlong,
    Option.getD_some]

theorem columnName_uuid (hkey : col.name ≠ bytesOf "KEY")
    (huuid : cfdef.comparatorType = marshal "UUIDType") :
    columnName unparse heap (some cfdef) col =
      ⟨cstr (unparse (uuidBytes heap col.name)), .emalloc⟩ := by
  have htext : ¬ isText (marshal "UUIDType") = true := by decide
  have hlong : ¬ isLong (marshal "UUIDType") = true := by decide
  rw [columnName, Option.bind_some, decodeName, if_neg hkey, huuid, if_neg htext,
    if_neg hlong, if_pos rfl, Option.getD_some]

/-- A name that is no hex text stands for itself. -/
theorem columnName_bytes (hkey : col.name ≠ bytesOf "KEY")
    (hbytes : cfdef.comparatorType = marshal "BytesType") :
    columnName unparse heap (some cfdef) col =
      match hexBytes (cstr col.name) with
      | none => estrdup col.name
      | some decoded =>
          { text := cstr (decoded ++
              (heap.malloc ((cstr col.name).length / 2 + 1)).drop decoded.length)
            storage := .malloc } := by
  have htext : ¬ isText (marshal "BytesType") = true := by decide
  have hlong : ¬ isLong (marshal "BytesType") = true := by decide
  have huuid : marshal "BytesType" ≠ marshal "UUIDType" := by decide
  rw [columnName, Option.bind_some, decodeName, if_neg hkey, hbytes, if_neg htext,
    if_neg hlong, if_neg huuid, if_pos rfl, hexToString_eq]
  cases hexBytes (cstr col.name) with
  | none => rfl
  | some decoded => rfl

/-- A comparator under which names are not decoded. -/
structure RawComparator (cfdef : CfDef) : Prop where
  long : isLong cfdef.comparatorType = false
  uuid : cfdef.comparatorType ≠ marshal "UUIDType"
  bytes : cfdef.comparatorType ≠ marshal "BytesType"

theorem columnName_raw (hraw : RawComparator cfdef) :
    columnName unparse heap (some cfdef) col = estrdup col.name := by
  rw [columnName, Option.bind_some, decodeName, hraw.long, if_neg Bool.false_ne_true,
    if_neg hraw.uuid, if_neg hraw.bytes]
  repeat' split
  all_goals rfl

end

theorem comparator_cases (cfdef : CfDef) :
    isLong cfdef.comparatorType = true ∨ cfdef.comparatorType = marshal "UUIDType" ∨
      cfdef.comparatorType = marshal "BytesType" ∨ RawComparator cfdef := by
  cases hlong : isLong cfdef.comparatorType with
  | true => exact Or.inl rfl
  | false =>
      by_cases huuid : cfdef.comparatorType = marshal "UUIDType"
      · exact Or.inr (Or.inl huuid)
      · by_cases hbytes : cfdef.comparatorType = marshal "BytesType"
        · exact Or.inr (Or.inr (Or.inl hbytes))
        · exact Or.inr (Or.inr (Or.inr ⟨hlong, huuid, hbytes⟩))

/-- A label is in the memory of `malloc` for these names, and of `emalloc` for any other. -/
theorem columnName_storage (unparse : Bytes → Bytes) (heap : Heap) (cfdef : Option CfDef)
    (col : Column) :
    (columnName unparse heap cfdef col).storage ≠ .emalloc ↔
      ∃ found, cfdef = some found ∧ HexName found col.name := by
  cases cfdef with
  | none => simp [columnName, estrdup]
  | some cfdef =>
      simp only [Option.some.injEq, exists_eq_left']
      by_cases hkey : col.name = bytesOf "KEY"
      · rw [columnName_key unparse heap hkey]
        exact iff_of_false (fun hne => hne rfl) fun hhex => hhex.1 hkey
      · rcases comparator_cases cfdef with hlong | huuid | hbytes | hraw
        · rw [columnName_long unparse heap hkey hlong]
          refine iff_of_false (fun hne => hne rfl) fun hhex => ?_
          rw [hhex.2.1] at hlong
          exact absurd hlong (by decide)
        · rw [columnName_uuid unparse heap hkey huuid]
          refine iff_of_false (fun hne => hne rfl) fun hhex => ?_
          exact absurd (huuid.symm.trans hhex.2.1) (by decide)
        · rw [columnName_bytes unparse heap hkey hbytes, HexName, and_iff_right hkey,
            and_iff_right hbytes]
          cases hexBytes (cstr col.name) with
          | none => simp [estrdup]
          | some decoded => simp
        · rw [columnName_raw unparse heap hraw]
          exact iff_of_false (fun hne => hne rfl) fun hhex => hraw.bytes hhex.2.1

/-- The columns whose value `get_col` leaves in an array of its own. -/
def LongKey (cfdef : CfDef) (name : Bytes) : Prop :=
  name = bytesOf "KEY" ∧ isLong cfdef.keyValidationClass = true

instance (cfdef : CfDef) (name : Bytes) : Decidable (LongKey cfdef name) :=
  inferInstanceAs (Decidable (_ ∧ _))

/-- A value is in a dead block for these columns, and in a block of PDO's for any other. -/
theorem columnPtr_storage (heap : Heap) (cfdef : Option CfDef) (col : Column) :
    (columnPtr heap cfdef col).storage = .deadBlock ↔
      ∃ found, cfdef = some found ∧ LongKey found col.name := by
  cases cfdef with
  | none => simp [columnPtr, estrdup]
  | some cfdef =>
      simp only [Option.some.injEq, exists_eq_left']
      unfold columnPtr decodeValue LongKey
      rw [Option.bind_some]
      by_cases hkey : col.name = bytesOf "KEY"
      · rw [if_pos hkey, and_iff_right hkey]
        by_cases hlong : isLong cfdef.keyValidationClass = true
        · simp [hlong, isText_of_isLong hlong]
        · rw [if_neg hlong]
          split
          · simp [estrdup, hlong]
          · simp [estrdup, hlong]
      · rw [if_neg hkey]
        refine iff_of_false ?_ fun hboth => hkey hboth.1
        cases CfDef.columnDef cfdef col.name with
        | none => simp [estrdup]
        | some columnDef =>
            simp only
            repeat' split
            all_goals simp [estrdup]

/-- Where it is not in a dead block, PDO reads the value that `get_col` left. -/
theorem columnValue_of_live {cfdef : Option CfDef} {col : Column}
    (hlive : ∀ found, cfdef = some found → ¬ LongKey found col.name) (heap : Heap) :
    columnValue heap cfdef col = (columnPtr heap cfdef col).text := by
  refine CharPtr.read_of_live (fun hdead => ?_) heap.dead
  obtain ⟨found, hfound, hkey⟩ := (columnPtr_storage heap cfdef col).mp hdead
  exact hlive found hfound hkey

/-! ## `pdo_cassandra_stmt_describe` and `pdo_cassandra_stmt_get_col` -/

/-- `S->result->rows[S->index]`. -/
def Stmt.row (stmt : Stmt) : Except Fault CqlRow :=
  match stmt.result with
  | none => .error .nullResult
  | some result =>
      match result.rows[sizeT stmt.index.toInt]? with
      | none => .error .rowIndex
      | some row => .ok row

/-- The fields that `describe` fills in. -/
def describeColumn (name : CharPtr) : PdoColumnData :=
  { name := some name
    namelen := name.text.length
    maxlen := 0xffffffff
    precision := 0
    paramType := pdoParamStr }

theorem describeColumn_isForeign (name : CharPtr) :
    (describeColumn name).isForeign = true ↔ name.storage ≠ .emalloc := by
  simp [PdoColumnData.isForeign, describeColumn]

def pdoCassandraStmtDescribe (unparse : Bytes → Bytes) (heap : Heap) (H : DbHandle)
    (stmt : Stmt) (colno : Int32) : Exit × Stmt :=
  match stmt.row with
  | .error why => (.fault why, stmt)
  | .ok row =>
      match row.columns[sizeT colno.toInt]? with
      | none => (.ret 0, stmt)
      | some col =>
          let name := columnName unparse heap (H.cfDef stmt.columnFamily) col
          match stmt.columns with
          | none => (.fault .nullColumns, stmt)
          | some columns =>
              if 0 ≤ colno.toInt ∧ colno.toInt < columns.length then
                (.ret 1,
                  { stmt with
                    columns := some (columns.set colno.toInt.toNat (describeColumn name)) })
              else (.fault .columnIndex, stmt)

/-- A column of a current row that PDO has made room for. -/
theorem pdoCassandraStmtDescribe_col (unparse : Bytes → Bytes) (heap : Heap)
    (H : DbHandle) {stmt : Stmt} {colno : Int32} {row : CqlRow} {col : Column}
    {columns : List PdoColumnData} (hrow : stmt.row = .ok row)
    (hwidth : row.columns.length < 2 ^ 31) (hcolumns : stmt.columns = some columns)
    (hlength : columns.length = row.columns.length) (hcolno : 0 ≤ colno.toInt)
    (hcol : row.columns[colno.toInt.toNat]? = some col) :
    pdoCassandraStmtDescribe unparse heap H stmt colno =
      (.ret 1,
        { stmt with
          columns := some (columns.set colno.toInt.toNat
            (describeColumn (columnName unparse heap (H.cfDef stmt.columnFamily) col))) }) := by
  have hlt : colno.toInt.toNat < columns.length := by
    rw [hlength]
    exact (List.getElem?_eq_some_iff.mp hcol).1
  have hroom : 0 ≤ colno.toInt ∧ colno.toInt < columns.length := by omega
  simp only [pdoCassandraStmtDescribe, hrow, getElem?_sizeT hwidth, if_pos hcolno, hcol,
    hcolumns, if_pos hroom]

/-- Another column number. -/
theorem pdoCassandraStmtDescribe_out (unparse : Bytes → Bytes) (heap : Heap)
    (H : DbHandle) {stmt : Stmt} {colno : Int32} {row : CqlRow}
    (hrow : stmt.row = .ok row) (hwidth : row.columns.length < 2 ^ 31)
    (hcolno : ¬ (0 ≤ colno.toInt ∧ colno.toInt < row.columns.length)) :
    pdoCassandraStmtDescribe unparse heap H stmt colno = (.ret 0, stmt) := by
  simp only [pdoCassandraStmtDescribe, hrow, getElem?_sizeT_eq_none hwidth hcolno]

/-- Describe changes nothing but the entries of the array of columns. -/
theorem pdoCassandraStmtDescribe_frame (unparse : Bytes → Bytes) (heap : Heap)
    (H : DbHandle) (stmt : Stmt) (colno : Int32) :
    ∃ columns, (pdoCassandraStmtDescribe unparse heap H stmt colno).2 =
        { stmt with columns } ∧
      columns.map List.length = stmt.columns.map List.length := by
  unfold pdoCassandraStmtDescribe
  split
  · exact ⟨_, rfl, rfl⟩
  · split
    · exact ⟨_, rfl, rfl⟩
    · split
      · exact ⟨_, rfl, rfl⟩
      · rename_i columns hcolumns
        split
        · exact ⟨_, rfl, by simp [hcolumns]⟩
        · exact ⟨_, rfl, rfl⟩

/-- The pointer is `*ptr`; `*len` is the `strlen` of its text. -/
def pdoCassandraStmtGetCol (heap : Heap) (H : DbHandle) (stmt : Stmt)
    (colno : Int32) : Exit × Option CharPtr :=
  match stmt.row with
  | .error why => (.fault why, none)
  | .ok row =>
      match row.columns[sizeT colno.toInt]? with
      | none => (.ret 0, none)
      | some col =>
          (.ret 1, some (columnPtr heap (H.cfDef stmt.columnFamily) col))

/-- `row.columns[colno]`, when there is one. -/
def Stmt.column (stmt : Stmt) (colno : Int32) : Option Column :=
  match stmt.row with
  | .error _ => none
  | .ok row => row.columns[sizeT colno.toInt]?

/-- What get_col hands over, whenever it returns `1`. -/
theorem pdoCassandraStmtGetCol_ret_one {heap : Heap} {H : DbHandle} {stmt : Stmt}
    {colno : Int32} {ptr : Option CharPtr} :
    pdoCassandraStmtGetCol heap H stmt colno = (.ret 1, ptr) ↔
      ∃ col, stmt.column colno = some col ∧
        ptr = some (columnPtr heap (H.cfDef stmt.columnFamily) col) := by
  unfold pdoCassandraStmtGetCol Stmt.column
  cases stmt.row with
  | error why => simp
  | ok row =>
      cases hcol : row.columns[sizeT colno.toInt]? with
      | none => simp [hcol]
      | some col =>
          simp only [hcol, Prod.mk.injEq, true_and, Option.some.injEq, exists_eq_left']
          exact eq_comm

/-! ## `pdo_cassandra_stmt_col_meta` -/

/-- Whether the method returns `SUCCESS`. -/
def pdoCassandraStmtColMeta (stmt : Stmt) (colno : Int) : Bool :=
  if !stmt.executed then false
  else
    match stmt.result with
    | none => false
    | some result => decide (sizeT colno < result.rows.length)

/-! ## What `pdo_cassandra_stmt_execute` can do -/

/-- The ways through execute, with the state each one leaves. -/
inductive ExecuteExit (conn : Conn) (stmt : Stmt) (query : Query)
    (replies : Replies) : Outcome → Conn → Stmt → Prop where
  | describeRaised {e : TException} (hcache : cacheKeyspace conn.H replies = .error e) :
      ExecuteExit conn stmt query replies (catchInvalidRequest 0 e) conn stmt
  | overrun {H : DbHandle} (hcache : cacheKeyspace conn.H replies = .ok H)
      (hscan : scanColumnfamily query.memory = none) :
      ExecuteExit conn stmt query replies { exit := .fault .scanOverrun }
        ⟨H, conn.server⟩ stmt
  | used {H : DbHandle} {found : Scan} {keyspace : Bytes}
      (hcache : cacheKeyspace conn.H replies = .ok H)
      (hscan : scanColumnfamily query.memory = some found)
      (huse : useTarget query = some keyspace)
      (hset : recvSetKeyspace replies.setKeyspace = .ok ()) :
      ExecuteExit conn stmt query replies { exit := .ret 0 }
        ⟨{ H with keyspace }, { conn.server with keyspace }⟩
        (stmt.setColumnFamily found.token)
  | useRaised {H : DbHandle} {found : Scan} {keyspace : Bytes} {e : TException}
      (hcache : cacheKeyspace conn.H replies = .ok H)
      (hscan : scanColumnfamily query.memory = some found)
      (huse : useTarget query = some keyspace)
      (hset : recvSetKeyspace replies.setKeyspace = .error e) :
      ExecuteExit conn stmt query replies (catchInvalidRequest 0 e)
        ⟨H, conn.server⟩ (stmt.setColumnFamily found.token)
  | queried {H : DbHandle} {found : Scan} {result : CqlResult}
      (hcache : cacheKeyspace conn.H replies = .ok H)
      (hscan : scanColumnfamily query.memory = some found)
      (huse : useTarget query = none)
      (hquery : recvExecuteCqlQuery replies.executeCqlQuery = .ok result) :
      ExecuteExit conn stmt query replies { exit := .ret 1 }
        ⟨H, { conn.server with
              keyspace := (conn.server.cqlUse query.text).getD conn.server.keyspace
              schema := replies.alter conn.server.schema }⟩
        ((stmt.setColumnFamily found.token).setResult result)
  | queryRaised {H : DbHandle} {found : Scan} {e : TException}
      (hcache : cacheKeyspace conn.H replies = .ok H)
      (hscan : scanColumnfamily query.memory = some found)
      (huse : useTarget query = none)
      (hquery : recvExecuteCqlQuery replies.executeCqlQuery = .error e) :
      ExecuteExit conn stmt query replies (catchInvalidRequest 0 e)
        ⟨H, { conn.server with schema := replies.alter conn.server.schema }⟩
        (stmt.setColumnFamily found.token)

theorem pdoCassandraStmtExecute_exit {conn after : Conn} {stmt left : Stmt}
    {query : Query} {replies : Replies} {outcome : Outcome}
    (hcall : pdoCassandraStmtExecute conn stmt query replies = (outcome, after, left)) :
    ExecuteExit conn stmt query replies outcome after left := by
  obtain ⟨reads, hkeyspace⟩ := scanKeyspace_memory query
  unfold pdoCassandraStmtExecute at hcall
  cases hcache : cacheKeyspace conn.H replies with
  | error e =>
      simp only [hcache] at hcall
      cases hcall
      exact .describeRaised hcache
  | ok H =>
      cases hscan : scanColumnfamily query.memory with
      | none =>
          simp only [hcache, hscan] at hcall
          cases hcall
          exact .overrun hcache hscan
      | some found =>
          simp only [hcache, hscan, hkeyspace] at hcall
          cases huse : useTarget query with
          | some keyspace =>
              simp only [huse, Server.setKeyspace] at hcall
              cases hset : recvSetKeyspace replies.setKeyspace with
              | ok _ =>
                  simp only [hset] at hcall
                  cases hcall
                  exact .used hcache hscan huse hset
              | error e =>
                  simp only [hset] at hcall
                  cases hcall
                  exact .useRaised hcache hscan huse hset
          | none =>
              simp only [huse, Server.executeCqlQuery] at hcall
              cases hquery : recvExecuteCqlQuery replies.executeCqlQuery with
              | ok result =>
                  simp only [hquery] at hcall
                  cases hcall
                  exact .queried hcache hscan huse hquery
              | error e =>
                  simp only [hquery] at hcall
                  cases hcall
                  exact .queryRaised hcache hscan huse hquery

/-- Execute leaves the columns to fetch. -/
theorem pdoCassandraStmtExecute_columns {conn after : Conn} {stmt left : Stmt}
    {query : Query} {replies : Replies} {outcome : Outcome}
    (hcall : pdoCassandraStmtExecute conn stmt query replies = (outcome, after, left)) :
    left.columns = stmt.columns ∧ left.columnCount = stmt.columnCount := by
  cases pdoCassandraStmtExecute_exit hcall with
  | @queried H found result hcache hscan huse hquery =>
      unfold Stmt.setResult
      split
      all_goals exact ⟨rfl, rfl⟩
  | describeRaised | overrun | used | useRaised | queryRaised => exact ⟨rfl, rfl⟩

/-- The mark of a successful execute is PDO's. -/
theorem pdoCassandraStmtExecute_executed {conn after : Conn} {stmt left : Stmt}
    {query : Query} {replies : Replies} {outcome : Outcome}
    (hcall : pdoCassandraStmtExecute conn stmt query replies = (outcome, after, left)) :
    left.executed = stmt.executed := by
  cases pdoCassandraStmtExecute_exit hcall with
  | @queried H found result hcache hscan huse hquery =>
      unfold Stmt.setResult
      split
      all_goals rfl
  | describeRaised | overrun | used | useRaised | queryRaised => rfl

/-- Execute returns `1` from a query that is sent and answered. -/
theorem pdoCassandraStmtExecute_success {conn after : Conn} {stmt left : Stmt}
    {query : Query} {replies : Replies} {outcome : Outcome}
    (hcall : pdoCassandraStmtExecute conn stmt query replies = (outcome, after, left))
    (hret : outcome.exit = .ret 1) :
    ∃ H found result, cacheKeyspace conn.H replies = .ok H ∧
      scanColumnfamily query.memory = some found ∧ useTarget query = none ∧
      recvExecuteCqlQuery replies.executeCqlQuery = .ok result ∧
      after = ⟨H, { conn.server with
                    keyspace := (conn.server.cqlUse query.text).getD conn.server.keyspace
                    schema := replies.alter conn.server.schema }⟩ ∧
      left = (stmt.setColumnFamily found.token).setResult result := by
  cases pdoCassandraStmtExecute_exit hcall with
  | describeRaised hcache =>
      obtain ⟨hone, -⟩ := catchInvalidRequest_exit_ret.mp hret
      cases hone
  | overrun hcache hscan => cases hret
  | used hcache hscan huse hset => cases hret
  | useRaised hcache hscan huse hset =>
      obtain ⟨hone, -⟩ := catchInvalidRequest_exit_ret.mp hret
      cases hone
  | queried hcache hscan huse hquery =>
      exact ⟨_, _, _, hcache, hscan, huse, hquery, rfl, rfl⟩
  | queryRaised hcache hscan huse hquery =>
      obtain ⟨hone, -⟩ := catchInvalidRequest_exit_ret.mp hret
      cases hone

/-- A query that is sent and answered makes execute return `1`. -/
theorem pdoCassandraStmtExecute_answered {conn : Conn} {stmt : Stmt} {query : Query}
    {replies : Replies} {result : CqlResult} (hdescribed : Described conn.H replies)
    (hscan : scanColumnfamily query.memory ≠ none) (huse : useTarget query = none)
    (hquery : recvExecuteCqlQuery replies.executeCqlQuery = .ok result) :
    (pdoCassandraStmtExecute conn stmt query replies).1 = { exit := .ret 1 } := by
  obtain ⟨cached, hcache⟩ := (described_iff _ _).mp hdescribed
  obtain ⟨found, hfound⟩ := Option.ne_none_iff_exists'.mp hscan
  obtain ⟨reads, hkeyspace⟩ := scanKeyspace_memory query
  rw [huse] at hkeyspace
  simp only [pdoCassandraStmtExecute, hcache, hfound, hkeyspace,
    Server.executeCqlQuery, hquery]

/-! ## What `pdo_cassandra_stmt_fetch` can do -/

/-- The ways through fetch, with the state each one leaves. -/
inductive FetchExit (stmt : Stmt) : Exit → Stmt → Prop where
  | nullResult (hresult : stmt.result = none) :
      FetchExit stmt (.fault .nullResult) { stmt with index := stmt.index + 1 }
  | exhausted {result : CqlResult} (hresult : stmt.result = some result)
      (hrow : result.rows[sizeT (stmt.index + 1).toInt]? = none) :
      FetchExit stmt (.ret 0) { stmt with index := stmt.index + 1 }
  | undescribed {result : CqlResult} {row : CqlRow} {cols : List PdoColumnData}
      {why : Fault} (hresult : stmt.result = some result)
      (hrow : result.rows[sizeT (stmt.index + 1).toInt]? = some row)
      (hcolumns : stmt.columns = some cols)
      (hfree : efreeNames stmt.columnCount.toInt.toNat cols = .error why) :
      FetchExit stmt (.fault why) { stmt with index := stmt.index + 1 }
  | fetched {result : CqlResult} {row : CqlRow} (hresult : stmt.result = some result)
      (hrow : result.rows[sizeT (stmt.index + 1).toInt]? = some row)
      (hcolumns : ∀ cols, stmt.columns = some cols →
        efreeNames stmt.columnCount.toInt.toNat cols = .ok ()) :
      FetchExit stmt (.ret 1)
        { stmt with
          index := stmt.index + 1
          columns := none
          columnCount := Int32.ofNat row.columns.length }

theorem pdoCassandraStmtFetch_exit {stmt left : Stmt} {exit : Exit}
    (hcall : pdoCassandraStmtFetch stmt = (exit, left)) : FetchExit stmt exit left := by
  obtain ⟨result, columnFamily, index, rowCount, columnCount, columns, executed⟩ := stmt
  unfold pdoCassandraStmtFetch Stmt.unDescribe at hcall
  cases result with
  | none =>
      cases hcall
      exact .nullResult rfl
  | some result =>
      cases hrow : result.rows[sizeT (index + 1).toInt]? with
      | none =>
          simp only [hrow] at hcall
          cases hcall
          exact .exhausted rfl hrow
      | some row =>
          simp only [hrow] at hcall
          cases columns with
          | none =>
              cases hcall
              exact .fetched rfl hrow (by simp)
          | some cols =>
              cases hfree : efreeNames columnCount.toInt.toNat cols with
              | error why =>
                  simp only [hfree] at hcall
                  cases hcall
                  exact .undescribed rfl hrow rfl hfree
              | ok freed =>
                  simp only [hfree] at hcall
                  cases hcall
                  refine .fetched rfl hrow fun other hother => ?_
                  cases hother
                  exact hfree

end PdoCassandra.Driver
