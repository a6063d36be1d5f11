import PdoCassandra.Properties.ValueDelivery

/-!
# What a failing execute leaves behind

By the time the last client call is made, the cache has been filled and the
column family assigned; a `USE` that went through has moved the keyspace before
the failure status is returned.  An open result is decoded under all three.
-/

namespace PdoCassandra.Properties.FailedExecute

open PdoCassandra.Foundation.CString
open PdoCassandra.Driver
open PdoCassandra.Driver.CqlParser
open PdoCassandra.Properties.LongType
open PdoCassandra.Properties.ResultIsolation
open PdoCassandra.Properties.ValueDelivery
open PdoCassandra.Thrift

variable {unparse : Bytes → Bytes}

/-! ## The rows that are still open -/

/-- The rows of the open result from the current one on. -/
def openRows (stmt : Stmt) : List CqlRow :=
  match stmt.result with
  | none => []
  | some result => result.rows.drop stmt.index.toInt.toNat

/-- Two definitions give a column the same label and the same value. -/
def SameColumn (unparse : Bytes → Bytes) (cfdef other : Option CfDef) (col : Column) : Prop :=
  ∀ heap : Heap, columnName unparse heap other col = columnName unparse heap cfdef col ∧
    columnPtr heap other col = columnPtr heap cfdef col

/-- Every column of the open rows keeps its label and value. -/
def OpenTexts (unparse : Bytes → Bytes) (stmt : Stmt) (cfdef other : Option CfDef) : Prop :=
  ∀ row ∈ openRows stmt, ∀ col ∈ row.columns, SameColumn unparse cfdef other col

theorem openTexts_refl (stmt : Stmt) (cfdef : Option CfDef) :
    OpenTexts unparse stmt cfdef cfdef :=
  fun _ _ _ _ _ => ⟨rfl, rfl⟩

/-! ## Columns that a definition leaves raw -/

/-- A name that `describe` labels with its own text under a comparator. -/
structure RawName (unparse : Bytes → Bytes) (comparator name : Bytes) : Prop where
  long : isLong comparator = true → cstr name = ownNumeral
  uuid : comparator = marshal "UUIDType" →
    ∀ heap, cstr (unparse (uuidBytes heap name)) = cstr name
  bytes : comparator = marshal "BytesType" → hexBytes (cstr name) = none

/-- A column that a definition shows as it is shown without one. -/
structure RawUnder (unparse : Bytes → Bytes) (cfdef : CfDef) (col : Column) : Prop where
  name : col.name = bytesOf "KEY" ∨ RawName unparse cfdef.comparatorType col.name
  value : isLong (validator cfdef col.name) = true →
    col.name ≠ bytesOf "KEY" ∧ cstr col.value = ownNumeral

theorem columnName_raw_iff (cfdef : CfDef) (col : Column) :
    (∀ heap, columnName unparse heap (some cfdef) col = estrdup col.name) ↔
      col.name = bytesOf "KEY" ∨ RawName unparse cfdef.comparatorType col.name := by
  by_cases hkey : col.name = bytesOf "KEY"
  · exact iff_of_true (fun heap => columnName_key unparse heap hkey) (Or.inl hkey)
  · rw [or_iff_right hkey]
    constructor
    · intro hraw
      refine ⟨fun hlong => ?_, fun huuid heap => ?_, fun hbytes => ?_⟩
      · have hptr := (columnName_long unparse Heap.zeros hkey hlong).symm.trans (hraw _)
        exact (convertToString_eq_cstr_iff _ _).mp (congrArg CharPtr.text hptr)
      · have hptr := (columnName_uuid unparse heap hkey huuid).symm.trans (hraw heap)
        exact congrArg CharPtr.text hptr
      · have hptr := (columnName_bytes unparse Heap.zeros hkey hbytes).symm.trans (hraw _)
        cases hhex : hexBytes (cstr col.name) with
        | none => rfl
        | some decoded =>
            rw [hhex] at hptr
            cases congrArg CharPtr.storage hptr
    · intro hraw heap
      rcases comparator_cases cfdef with hlong | huuid | hbytes | hother
      · rw [columnName_long unparse heap hkey hlong,
          (convertToString_eq_cstr_iff heap col.name).mpr (hraw.long hlong), estrdup]
      · rw [columnName_uuid unparse heap hkey huuid, hraw.uuid huuid heap, estrdup]
      · rw [columnName_bytes unparse heap hkey hbytes, hraw.bytes hbytes]
      · exact columnName_raw unparse heap hother

theorem columnPtr_raw_iff (cfdef : CfDef) (col : Column) :
    (∀ heap, columnPtr heap (some cfdef) col = estrdup col.value) ↔
      (isLong (validator cfdef col.name) = true →
        col.name ≠ bytesOf "KEY" ∧ cstr col.value = ownNumeral) := by
  cases hlong : isLong (validator cfdef col.name) with
  | false =>
      refine iff_of_true (fun heap => columnPtr_of_raw heap hlong) fun htrue => ?_
      cases htrue
  | true =>
      constructor
      · intro hraw _
        have hptr := (columnPtr_of_long Heap.zeros hlong).symm.trans (hraw Heap.zeros)
        have hname : col.name ≠ bytesOf "KEY" := by
          intro hkey
          rw [if_pos hkey] at hptr
          cases congrArg CharPtr.storage hptr
        have htext := congrArg CharPtr.text hptr
        simp only [longText, if_neg hname] at htext
        exact ⟨hname, (convertToString_eq_cstr_iff Heap.zeros col.value).mp htext⟩
      · intro hown heap
        obtain ⟨hname, htext⟩ := hown rfl
        have hsame := (convertToString_eq_cstr_iff heap col.value).mpr htext
        rw [columnPtr_of_long heap hlong, longText, if_neg hname, if_neg hname, hsame, estrdup]

theorem sameColumn_none_iff (cfdef : CfDef) (col : Column) :
    SameColumn unparse none (some cfdef) col ↔ RawUnder unparse cfdef col := by
  have hnone (heap : Heap) : columnName unparse heap none col = estrdup col.name ∧
      columnPtr heap none col = estrdup col.value :=
    ⟨rfl, rfl⟩
  constructor
  · intro hsame
    constructor
    · exact (columnName_raw_iff cfdef col).mp fun heap => (hsame heap).1.trans (hnone heap).1
    · exact (columnPtr_raw_iff cfdef col).mp fun heap => (hsame heap).2.trans (hnone heap).2
  · rintro ⟨hname, hvalue⟩ heap
    exact ⟨(columnName_raw_iff cfdef col).mpr hname heap,
      (columnPtr_raw_iff cfdef col).mpr hvalue heap⟩

/-! ## Atomicity -/

/-- The state behind a failed execute, against the state before it. -/
structure Unchanged (unparse : Bytes → Bytes) (conn : Conn) (stmt : Stmt) (after : Conn)
    (left : Stmt) : Prop where
  keyspace : after.H.keyspace = conn.H.keyspace
  session : after.server.keyspace = conn.server.keyspace
  /-- The column family, the result, the index and the row count among the rest. -/
  statement : left = stmt
  cache : ∀ keyspace, after.H.ksDefs keyspace = conn.H.ksDefs keyspace ∨
    keyspace = conn.H.keyspace ∧ conn.H.ksDefs keyspace = none
  texts : OpenTexts unparse stmt (conn.H.cfDef stmt.columnFamily)
    (after.H.cfDef stmt.columnFamily)

def Atomic (unparse : Bytes → Bytes) (conn : Conn) (stmt : Stmt) (query : Query)
    (replies : Replies) : Prop :=
  let execute := pdoCassandraStmtExecute conn stmt query replies
  execute.1.exit = .ret 0 → Unchanged unparse conn stmt execute.2.1 execute.2.2

/-- A schema that is described now leaves the columns of the open rows raw. -/
def DescribesRaw (unparse : Bytes → Bytes) (H : DbHandle) (stmt : Stmt)
    (replies : Replies) : Prop :=
  H.ksDefs H.keyspace = none →
    ∀ ksdef, recvDescribeKeyspace replies.describeKeyspace = .ok ksdef →
      ∀ cfdef, (ksdef.cfDefs.find? fun cfdef => cfdef.name = stmt.columnFamily) = some cfdef →
        ∀ row ∈ openRows stmt, ∀ col ∈ row.columns, RawUnder unparse cfdef col

/-- The name that `scan_columnfamily` finds in a query. -/
def columnFamilyOf (query : Query) : Option Bytes :=
  (scanColumnfamily query.memory).bind Scan.token

/--
A `USE` that goes through names the keyspace that the handle and the session have
already; in a query that is refused the scanner finds no other column family; and a
schema that is described on the way to either leaves the open rows raw.
-/
def AtomicWhen (unparse : Bytes → Bytes) (conn : Conn) (stmt : Stmt) (query : Query)
    (replies : Replies) : Prop :=
  Described conn.H replies → scanColumnfamily query.memory ≠ none →
    match useTarget query with
    | some keyspace =>
        (recvSetKeyspace replies.setKeyspace = .ok () →
          keyspace = conn.H.keyspace ∧ keyspace = conn.server.keyspace ∧
            DescribesRaw unparse conn.H stmt replies) ∧
        ((∃ why, recvSetKeyspace replies.setKeyspace = .error (.invalidRequest why)) →
          DescribesRaw unparse conn.H stmt replies)
    | none =>
        (∃ why,
          recvExecuteCqlQuery replies.executeCqlQuery = .error (.invalidRequest why)) →
        (∀ name, columnFamilyOf query = some name → name = stmt.columnFamily) ∧
          DescribesRaw unparse conn.H stmt replies

/-! ## The cache -/

theorem cache_unchanged {H cached : DbHandle} {replies : Replies}
    (hcache : cacheKeyspace H replies = .ok cached) (keyspace : Bytes) :
    cached.ksDefs keyspace = H.ksDefs keyspace ∨
      keyspace = H.keyspace ∧ H.ksDefs keyspace = none := by
  obtain ⟨rfl, -⟩ | ⟨hmissing, ksdef, -, rfl⟩ := cacheKeyspace_ok hcache
  · exact Or.inl rfl
  · by_cases hsame : keyspace = H.keyspace
    · exact Or.inr ⟨hsame, hsame ▸ hmissing⟩
    · exact Or.inl (Function.update_of_ne hsame _ _)

/-- The texts of the open rows are kept exactly when the schema leaves them raw. -/
theorem openTexts_cache_iff {H cached : DbHandle} {stmt : Stmt} {replies : Replies}
    (hcache : cacheKeyspace H replies = .ok cached) :
    OpenTexts unparse stmt (H.cfDef stmt.columnFamily) (cached.cfDef stmt.columnFamily) ↔
      DescribesRaw unparse H stmt replies := by
  obtain ⟨rfl, ksdef, hfound⟩ | ⟨hmissing, ksdef, hdescribe, rfl⟩ := cacheKeyspace_ok hcache
  · apply iff_of_true (openTexts_refl _ _)
    intro hmissing
    rw [hfound] at hmissing
    cases hmissing
  · have hbefore : H.cfDef stmt.columnFamily = none := by
      rw [DbHandle.cfDef, hmissing, Option.bind_none]
    have hbehind : DbHandle.cfDef
        { H with ksDefs := Function.update H.ksDefs H.keyspace (some ksdef) }
        stmt.columnFamily =
          ksdef.cfDefs.find? fun cfdef => cfdef.name = stmt.columnFamily := by
      simp [DbHandle.cfDef]
    rw [hbefore, hbehind]
    constructor
    · intro htexts _ found hfound cfdef hcfdef row hrow col hcol
      cases hdescribe.symm.trans hfound
      rw [hcfdef] at htexts
      exact (sameColumn_none_iff cfdef col).mp (htexts row hrow col hcol)
    · intro hraw row hrow col hcol
      cases hcfdef : ksdef.cfDefs.find? fun cfdef => cfdef.name = stmt.columnFamily with
      | none => exact fun _ => ⟨rfl, rfl⟩
      | some cfdef =>
          apply (sameColumn_none_iff cfdef col).mpr
          exact hraw hmissing ksdef hdescribe cfdef hcfdef row hrow col hcol

/-! ## The exits -/

theorem setColumnFamily_eq_iff (stmt : Stmt) (cf : Option Bytes) :
    stmt.setColumnFamily cf = stmt ↔ ∀ name, cf = some name → name = stmt.columnFamily := by
  cases cf with
  | none => simp [Stmt.setColumnFamily]
  | some name =>
      constructor
      · intro hsame found hfound
        cases hfound
        have hcolumn := congrArg Stmt.columnFamily hsame
        simpa [Stmt.setColumnFamily] using hcolumn
      · intro hname
        simp [Stmt.setColumnFamily, hname name rfl]

/-- When neither keyspace moved, the statement and its texts decide. -/
theorem unchanged_iff {conn : Conn} {stmt left : Stmt} {cached : DbHandle}
    {server : Server} {replies : Replies}
    (hcache : cacheKeyspace conn.H replies = .ok cached)
    (hserver : server.keyspace = conn.server.keyspace) :
    Unchanged unparse conn stmt ⟨cached, server⟩ left ↔
      left = stmt ∧ DescribesRaw unparse conn.H stmt replies := by
  rw [← openTexts_cache_iff hcache]
  constructor
  · intro hsame
    exact ⟨hsame.statement, hsame.texts⟩
  · rintro ⟨hstmt, htexts⟩
    exact ⟨cacheKeyspace_keyspace hcache, hserver, hstmt, cache_unchanged hcache, htexts⟩

/-- A `USE` that went through has moved both keyspaces to its own. -/
theorem unchanged_used_iff {conn : Conn} {stmt : Stmt} {cached : DbHandle}
    {replies : Replies} (hcache : cacheKeyspace conn.H replies = .ok cached)
    (keyspace : Bytes) :
    Unchanged unparse conn stmt
        ⟨{ cached with keyspace }, { conn.server with keyspace }⟩ stmt ↔
      keyspace = conn.H.keyspace ∧ keyspace = conn.server.keyspace ∧
        DescribesRaw unparse conn.H stmt replies := by
  have hkept := cacheKeyspace_keyspace hcache
  constructor
  · intro hsame
    have hhandle : keyspace = conn.H.keyspace := hsame.keyspace
    have htexts := hsame.texts
    rw [hhandle, ← hkept] at htexts
    exact ⟨hhandle, hsame.session, (openTexts_cache_iff hcache).mp htexts⟩
  · rintro ⟨hhandle, hsession, hkeeps⟩
    have htexts := (openTexts_cache_iff hcache).mpr hkeeps
    rw [hhandle, ← hkept]
    exact ⟨hkept, (hkept.trans hhandle.symm).trans hsession, rfl,
      cache_unchanged hcache, htexts⟩

/-- A query that the driver reads as a `USE` assigns no column family. -/
theorem setColumnFamily_of_use {query : Query} {keyspace : Bytes} {found : Scan}
    (huse : useTarget query = some keyspace)
    (hscan : scanColumnfamily query.memory = some found) (stmt : Stmt) :
    stmt.setColumnFamily found.token = stmt := by
  obtain ⟨reads, hkeyspace⟩ := scanKeyspace_memory query
  rw [huse] at hkeyspace
  obtain ⟨other, hnone⟩ := scanColumnfamily_of_scanKeyspace hkeyspace
  rw [hscan, Option.some.injEq] at hnone
  rw [hnone]
  rfl

/--
Execute that returns `0` leaves everything as it was, but for the cache, exactly
under `AtomicWhen`.
-/
theorem atomic_iff (unparse : Bytes → Bytes) (conn : Conn) (stmt : Stmt) (query : Query)
    (replies : Replies) :
    Atomic unparse conn stmt query replies ↔ AtomicWhen unparse conn stmt query replies := by
  unfold Atomic AtomicWhen
  rcases hcall : pdoCassandraStmtExecute conn stmt query replies with
    ⟨outcome, after, left⟩
  simp only
  cases pdoCassandraStmtExecute_exit hcall with
  | describeRaised hcache =>
      have hmissing : ¬ Described conn.H replies := by
        rw [described_iff]
        simp [hcache]
      refine iff_of_true (fun _ => ?_) fun hdescribed => absurd hdescribed hmissing
      exact ⟨rfl, rfl, rfl, fun _ => Or.inl rfl, openTexts_refl _ _⟩
  | overrun hcache hscan =>
      exact iff_of_true (fun hret => by cases hret) fun _ hsome => absurd hscan hsome
  | used hcache hscan huse hset =>
      have hdescribed := (described_iff _ _).mpr ⟨_, hcache⟩
      rw [setColumnFamily_of_use huse hscan]
      simp [hdescribed, hscan, huse, hset, unchanged_used_iff hcache]
  | @useRaised H found keyspace e hcache hscan huse hset =>
      have hdescribed := (described_iff _ _).mpr ⟨_, hcache⟩
      rw [setColumnFamily_of_use huse hscan]
      simp [hdescribed, hscan, huse, hset, unchanged_iff hcache rfl,
        catchInvalidRequest_exit_ret]
  | queried hcache hscan huse hquery =>
      have hdescribed := (described_iff _ _).mpr ⟨_, hcache⟩
      simp [hdescribed, hscan, huse, hquery]
  | @queryRaised H found e hcache hscan huse hquery =>
      have hdescribed := (described_iff _ _).mpr ⟨_, hcache⟩
      have hunchanged : Unchanged unparse conn stmt
          ⟨H, { conn.server with schema := replies.alter conn.server.schema }⟩
          (stmt.setColumnFamily found.token) ↔ _ := unchanged_iff hcache rfl
      simp [hdescribed, hscan, huse, hquery, hunchanged, setColumnFamily_eq_iff,
        columnFamilyOf, catchInvalidRequest_exit_ret]

/-! ## A refused query -/

/-- A column family that lists a column of type long. -/
def longs : CfDef where
  name := bytesOf "t"
  columnMetadata := [⟨bytesOf "a", marshal "LongType"⟩]

/-- A connection whose current keyspace is cached. -/
def onLongs : Conn :=
  ⟨⟨[], fun _ => some ⟨[], [longs]⟩⟩, bareServer⟩

/-- A statement on the first row of an open result. -/
def openLongs : Stmt :=
  { cassandraHandlePreparer with
    result := some { type := .rows, rows := [⟨[⟨bytesOf "a", [0, 0, 0, 0, 0, 0, 0, 65]⟩]⟩] }
    columnFamily := bytesOf "t"
    index := 0
    rowCount := 1
    columnCount := 1 }

def selectOther : Query :=
  ⟨bytesOf "SELECT n FROM u", bytesOf "\n", by decide, by decide⟩

/-- The server refuses the query. -/
def refused : Replies :=
  { executeCqlQuery := .message { ire := some [] } }

/--
A refused `SELECT` from another column family has assigned that one: the value of the
open row is decoded before it, and raw behind it.
-/
theorem not_atomic_select :
    ∃ outcome after left,
      pdoCassandraStmtExecute onLongs openLongs selectOther refused = (outcome, after, left) ∧
      outcome.exit = .ret 0 ∧
      ¬ Atomic id onLongs openLongs selectOther refused ∧
      pdoCassandraStmtGetCol Heap.zeros onLongs.H openLongs 0 =
        (.ret 1, some ⟨bytesOf "65", .emalloc⟩) ∧
      pdoCassandraStmtGetCol Heap.zeros after.H left 0 = (.ret 1, some ⟨[], .emalloc⟩) := by
  have hfamily : ¬ Atomic id onLongs openLongs selectOther refused := by
    intro hatomic
    have hsame := congrArg Stmt.columnFamily (hatomic (by decide)).statement
    exact absurd hsame (by decide)
  exact ⟨_, _, _, rfl, rfl, hfamily, by decide, by decide⟩

end PdoCassandra.Properties.FailedExecute
