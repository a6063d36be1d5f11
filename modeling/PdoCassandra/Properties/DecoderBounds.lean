import PdoCassandra.Properties.ResultIsolation

/-!
# Where the binary decoders read

The decoders of `describe` and `get_col` again, with the offsets that they read.
The branch is chosen by the schema, the offsets are fixed, and nothing compares
them with the length of the string.
-/

namespace PdoCassandra.Properties.DecoderBounds

open PdoCassandra.Foundation.CString
open PdoCassandra.Driver
open PdoCassandra.Properties.ResultIsolation
open PdoCassandra.Thrift

/-! ## Traced values -/

/-- A value, and the offsets that were read on the way to it. -/
structure Traced (Value : Type) where
  value : Value
  offsets : List Nat

instance : Monad Traced where
  pure value := ⟨value, []⟩
  bind first next := ⟨(next first.value).value, first.offsets ++ (next first.value).offsets⟩

section

variable {Value Result : Type}

@[simp]
theorem value_pure (value : Value) : (pure value : Traced Value).value = value := rfl

@[simp]
theorem offsets_pure (value : Value) : (pure value : Traced Value).offsets = [] := rfl

@[simp]
theorem value_bind (first : Traced Value) (next : Value → Traced Result) :
    (first >>= next).value = (next first.value).value := rfl

@[simp]
theorem offsets_bind (first : Traced Value) (next : Value → Traced Result) :
    (first >>= next).offsets = first.offsets ++ (next first.value).offsets := rfl

end

/-! ## The decoders -/

def tracedByte (heap : Heap) (str : Bytes) (offset : Nat) : Traced UInt8 :=
  ⟨rawByte heap str offset, [offset]⟩

def tracedLong (heap : Heap) (str : Bytes) : Traced (BitVec 64) := do
  let rawArray (i : Nat) : Traced (BitVec 64) := do
    let byte ← tracedByte heap str i
    return byte.toBitVec.setWidth 64
  return (← rawArray 7) ||| ((← rawArray 6) <<< 8) ||| ((← rawArray 5) <<< 16) |||
    ((← rawArray 4) <<< 24) ||| ((← rawArray 3) <<< 32) ||| ((← rawArray 2) <<< 40) |||
    ((← rawArray 1) <<< 48) ||| ((← rawArray 0) <<< 56)

@[simp]
theorem tracedLong_value (heap : Heap) (str : Bytes) :
    (tracedLong heap str).value = deserializeLong heap str := rfl

@[simp]
theorem tracedLong_offsets (heap : Heap) (str : Bytes) :
    (tracedLong heap str).offsets = [7, 6, 5, 4, 3, 2, 1, 0] := rfl

/-- `uuid_unparse` reads the sixteen bytes of a `uuid_t`. -/
def tracedUuid (heap : Heap) (str : Bytes) : Traced Bytes :=
  ⟨uuidBytes heap str, List.range 16⟩

/-- `decodeName`, with its reads. -/
def tracedName (unparse : Bytes → Bytes) (heap : Heap) (cfdef : CfDef) (name : Bytes) :
    Traced (Option CharPtr) :=
  if name = bytesOf "KEY" then return some (estrdup name)
  else if isText cfdef.comparatorType then return some (estrdup name)
  else if isLong cfdef.comparatorType then do
    let lval ← tracedLong heap name
    return some ⟨convertToString lval, .emalloc⟩
  else if cfdef.comparatorType = marshal "UUIDType" then do
    let uu ← tracedUuid heap name
    return some ⟨cstr (unparse uu), .emalloc⟩
  else if cfdef.comparatorType = marshal "BytesType" then
    return (hexToString heap (cstr name)).map fun block => ⟨cstr block, .malloc⟩
  else return none

/-- `decodeValue`, with its reads. -/
def tracedValue (heap : Heap) (cfdef : CfDef) (col : Column) : Traced (Option CharPtr) :=
  if col.name = bytesOf "KEY" then
    if isText cfdef.keyValidationClass then return some (estrdup col.value)
    else if isLong cfdef.keyValidationClass then do
      let longValue ← tracedLong heap col.value
      return some ⟨cstr (ltoa longValue 10), .deadBlock⟩
    else return none
  else
    match CfDef.columnDef cfdef col.name with
    | none => return none
    | some columnDef =>
        if isText columnDef.validationClass then return some (estrdup col.value)
        else if isLong columnDef.validationClass then do
          let lval ← tracedLong heap col.value
          return some ⟨convertToString lval, .emalloc⟩
        else return some (estrdup col.value)

theorem tracedName_value (unparse : Bytes → Bytes) (heap : Heap) (cfdef : CfDef)
    (name : Bytes) :
    (tracedName unparse heap cfdef name).value = decodeName unparse heap cfdef name := by
  simp only [tracedName, apply_ite Traced.value, value_pure, value_bind, tracedLong_value]
  rfl

theorem tracedValue_value (heap : Heap) (cfdef : CfDef) (col : Column) :
    (tracedValue heap cfdef col).value = decodeValue heap cfdef col := by
  unfold tracedValue decodeValue
  cases CfDef.columnDef cfdef col.name with
  | none =>
      simp only [apply_ite Traced.value, value_pure, value_bind, tracedLong_value]
  | some columnDef =>
      simp only [apply_ite Traced.value, value_pure, value_bind, tracedLong_value]

/-! ## The methods -/

/-- The name that is stored for a column, with what describe reads of the column's own. -/
def tracedLabel (unparse : Bytes → Bytes) (heap : Heap) (cfdef : Option CfDef)
    (col : Column) : Traced CharPtr :=
  match cfdef with
  | none => return estrdup col.name
  | some cfdef => do
      let name ← tracedName unparse heap cfdef col.name
      return name.getD (estrdup col.name)

/-- The pointer to the text of a column, with what get_col reads of its value. -/
def tracedText (heap : Heap) (cfdef : Option CfDef) (col : Column) : Traced CharPtr :=
  match cfdef with
  | none => return estrdup col.value
  | some cfdef => do
      let ptr ← tracedValue heap cfdef col
      return ptr.getD (estrdup col.value)

theorem tracedLabel_value (unparse : Bytes → Bytes) (heap : Heap) (cfdef : Option CfDef)
    (col : Column) :
    (tracedLabel unparse heap cfdef col).value = columnName unparse heap cfdef col := by
  cases cfdef with
  | none => rfl
  | some cfdef => simp [tracedLabel, tracedName_value, columnName]

theorem tracedText_value (heap : Heap) (cfdef : Option CfDef) (col : Column) :
    (tracedText heap cfdef col).value = columnPtr heap cfdef col := by
  cases cfdef with
  | none => rfl
  | some cfdef => simp [tracedText, tracedValue_value, columnPtr]

/-- Describe stores the label that is traced. -/
theorem describe_traced (unparse : Bytes → Bytes) (heap : Heap) (H : DbHandle)
    {stmt : Stmt} {colno : Int32} {row : CqlRow} {col : Column}
    {columns : List PdoColumnData} (hrow : stmt.row = .ok row)
    (hwidth : row.columns.length < 2 ^ 31) (hcolumns : stmt.columns = some columns)
    (hlength : columns.length = row.columns.length) (hcolno : 0 ≤ colno.toInt)
    (hcol : row.columns[colno.toInt.toNat]? = some col) :
    pdoCassandraStmtDescribe unparse heap H stmt colno =
      (.ret 1,
        { stmt with
          columns := some (columns.set colno.toInt.toNat (describeColumn
            (tracedLabel unparse heap (H.cfDef stmt.columnFamily) col).value)) }) := by
  rw [tracedLabel_value]
  exact pdoCassandraStmtDescribe_col unparse heap H hrow hwidth hcolumns hlength hcolno hcol

/-- Get_col hands over the pointer that is traced. -/
theorem getCol_traced (heap : Heap) (H : DbHandle) {stmt : Stmt} {colno : Int32}
    {col : Column} (hcol : stmt.column colno = some col) :
    pdoCassandraStmtGetCol heap H stmt colno =
      (.ret 1, some (tracedText heap (H.cfDef stmt.columnFamily) col).value) := by
  rw [tracedText_value]
  exact pdoCassandraStmtGetCol_ret_one.mpr ⟨col, hcol, rfl⟩

/-- What is read lies in the string, or is its terminator. -/
structure ReadsInside (unparse : Bytes → Bytes) (heap : Heap) (H : DbHandle) (stmt : Stmt)
    (col : Column) : Prop where
  name : ∀ offset ∈ (tracedLabel unparse heap (H.cfDef stmt.columnFamily) col).offsets,
    offset ≤ col.name.length
  value : ∀ offset ∈ (tracedText heap (H.cfDef stmt.columnFamily) col).offsets,
    offset ≤ col.value.length

/-- The lengths that the decoders of a column take for granted. -/
structure LongEnough (cfdef : CfDef) (col : Column) : Prop where
  longName : col.name ≠ bytesOf "KEY" → cfdef.comparatorType = marshal "LongType" →
    7 ≤ col.name.length
  uuidName : col.name ≠ bytesOf "KEY" → cfdef.comparatorType = marshal "UUIDType" →
    15 ≤ col.name.length
  value : ValueBounded cfdef col

theorem tracedName_offsets (unparse : Bytes → Bytes) (heap : Heap) (cfdef : CfDef)
    (name : Bytes) :
    (tracedName unparse heap cfdef name).offsets =
      if name = bytesOf "KEY" then []
      else if cfdef.comparatorType = marshal "LongType" then [7, 6, 5, 4, 3, 2, 1, 0]
      else if cfdef.comparatorType = marshal "UUIDType" then List.range 16
      else [] := by
  unfold tracedName
  by_cases hkey : name = bytesOf "KEY"
  · rw [if_pos hkey, if_pos hkey, offsets_pure]
  · rw [if_neg hkey, if_neg hkey]
    by_cases hlong : cfdef.comparatorType = marshal "LongType"
    · have hislong : isLong cfdef.comparatorType = true := decide_eq_true hlong
      rw [if_neg (by simp [isText_of_isLong hislong]), if_pos hislong, if_pos hlong]
      simp only [offsets_bind, tracedLong_offsets, offsets_pure, List.append_nil]
    · have hnotlong : isLong cfdef.comparatorType = false := decide_eq_false hlong
      by_cases huuid : cfdef.comparatorType = marshal "UUIDType"
      · have htext : isText (marshal "UUIDType") = false := by decide
        rw [hnotlong, if_neg hlong, if_pos huuid, huuid, htext]
        rfl
      · simp only [apply_ite Traced.offsets, offsets_pure, hnotlong, huuid, hlong,
          Bool.false_eq_true, if_false, ite_self]

theorem tracedValue_offsets (heap : Heap) (cfdef : CfDef) (col : Column) :
    (tracedValue heap cfdef col).offsets =
      if isLong (validator cfdef col.name) then [7, 6, 5, 4, 3, 2, 1, 0] else [] := by
  have hbranch {className : Bytes} {text other : Traced (Option CharPtr)}
      {next : BitVec 64 → Option CharPtr} (htext : text.offsets = [])
      (hother : other.offsets = []) :
      (if isText className then text
        else if isLong className then (do return next (← tracedLong heap col.value))
        else other).offsets =
        if isLong className then [7, 6, 5, 4, 3, 2, 1, 0] else [] := by
    cases hlong : isLong className with
    | true =>
        simp only [isText_of_isLong hlong, Bool.false_eq_true, if_false, if_true, offsets_bind,
          tracedLong_offsets, offsets_pure, List.append_nil]
    | false =>
        simp only [apply_ite Traced.offsets, htext, hother, Bool.false_eq_true, if_false,
          ite_self]
  unfold tracedValue validator
  by_cases hkey : col.name = bytesOf "KEY"
  · rw [if_pos hkey, if_pos hkey]
    exact hbranch rfl rfl
  · rw [if_neg hkey, if_neg hkey]
    cases CfDef.columnDef cfdef col.name with
    | none => rfl
    | some columnDef => exact hbranch rfl rfl

theorem long_offsets_le_iff (length : Nat) :
    (∀ offset ∈ [7, 6, 5, 4, 3, 2, 1, 0], offset ≤ length) ↔ 7 ≤ length := by
  simp only [List.forall_mem_cons, List.not_mem_nil, false_implies, implies_true, and_true]
  omega

theorem uuid_offsets_le_iff (length : Nat) :
    (∀ offset ∈ List.range 16, offset ≤ length) ↔ 15 ≤ length := by
  simp only [List.mem_range]
  exact ⟨fun hall => hall 15 (by decide), fun hle offset hlt => by omega⟩

/-- Describe stays inside a name that its comparator leaves alone, or finds long enough. -/
theorem label_inside_iff (unparse : Bytes → Bytes) (heap : Heap) (cfdef : CfDef)
    (col : Column) :
    (∀ offset ∈ (tracedLabel unparse heap (some cfdef) col).offsets,
        offset ≤ col.name.length) ↔
      (col.name ≠ bytesOf "KEY" → cfdef.comparatorType = marshal "LongType" →
        7 ≤ col.name.length) ∧
      (col.name ≠ bytesOf "KEY" → cfdef.comparatorType = marshal "UUIDType" →
        15 ≤ col.name.length) := by
  have hoffsets : (tracedLabel unparse heap (some cfdef) col).offsets =
      (tracedName unparse heap cfdef col.name).offsets := List.append_nil _
  rw [hoffsets, tracedName_offsets]
  by_cases hkey : col.name = bytesOf "KEY"
  · rw [if_pos hkey]
    exact iff_of_true (List.forall_mem_nil _)
      ⟨fun hne => absurd hkey hne, fun hne => absurd hkey hne⟩
  · rw [if_neg hkey]
    split
    · rename_i hlong
      rw [long_offsets_le_iff]
      refine ⟨fun hle => ⟨fun _ _ => hle, fun _ huuid => ?_⟩, fun hboth => hboth.1 hkey hlong⟩
      exact absurd (hlong.symm.trans huuid) (by decide)
    · rename_i hlong
      split
      · rename_i huuid
        rw [uuid_offsets_le_iff]
        exact ⟨fun hle => ⟨fun _ heq => absurd heq hlong, fun _ _ => hle⟩,
          fun hboth => hboth.2 hkey huuid⟩
      · rename_i huuid
        exact iff_of_true (List.forall_mem_nil _)
          ⟨fun _ heq => absurd heq hlong, fun _ heq => absurd heq huuid⟩

/-- Get_col stays inside a value that it does not decode, or finds long enough. -/
theorem text_inside_iff (heap : Heap) (cfdef : CfDef) (col : Column) :
    (∀ offset ∈ (tracedText heap (some cfdef) col).offsets, offset ≤ col.value.length) ↔
      ValueBounded cfdef col := by
  have hoffsets : (tracedText heap (some cfdef) col).offsets =
      (tracedValue heap cfdef col).offsets := List.append_nil _
  rw [hoffsets, tracedValue_offsets, ValueBounded]
  split
  · rename_i hlong
    rw [long_offsets_le_iff]
    exact ⟨fun hle _ => hle, fun hbounded => hbounded hlong⟩
  · rename_i hraw
    exact iff_of_true (List.forall_mem_nil _) fun hlong => absurd hlong hraw

/-- The decoders stay inside their input exactly when it is long enough. -/
theorem reads_inside_iff (unparse : Bytes → Bytes) (heap : Heap) (H : DbHandle)
    (stmt : Stmt) (col : Column) :
    ReadsInside unparse heap H stmt col ↔
      ∀ cfdef, H.cfDef stmt.columnFamily = some cfdef → LongEnough cfdef col := by
  cases hcfdef : H.cfDef stmt.columnFamily with
  | none =>
      refine iff_of_true ⟨?_, ?_⟩ fun cfdef hnone => by cases hnone
      · rw [hcfdef]
        exact List.forall_mem_nil _
      · rw [hcfdef]
        exact List.forall_mem_nil _
  | some cfdef =>
      constructor
      · rintro ⟨hname, hvalue⟩ found hfound
        cases hfound
        rw [hcfdef, label_inside_iff] at hname
        rw [hcfdef, text_inside_iff] at hvalue
        exact ⟨hname.1, hname.2, hvalue⟩
      · intro hall
        obtain ⟨hlong, huuid, hvalue⟩ := hall cfdef rfl
        refine ⟨?_, ?_⟩
        · rw [hcfdef, label_inside_iff]
          exact ⟨hlong, huuid⟩
        · rw [hcfdef, text_inside_iff]
          exact hvalue

/-- A column family of integers under integer names, with a key of another name. -/
def keyedById : DbHandle :=
  ⟨bytesOf "ks", fun _ => some ⟨bytesOf "ks",
    [{ name := bytesOf "c"
       comparatorType := marshal "LongType"
       columnMetadata := [⟨[0, 0, 0, 0, 0, 0, 0, 5], marshal "LongType"⟩]
       keyAlias := bytesOf "id" }]⟩⟩

/-- The alias of a key is no integer name, and an empty value is no integer. -/
theorem not_reads_inside_alias_and_empty :
    ¬ ReadsInside id Heap.zeros keyedById { columnFamily := bytesOf "c" }
        ⟨bytesOf "id", bytesOf "1"⟩ ∧
      ¬ ReadsInside id Heap.zeros keyedById { columnFamily := bytesOf "c" }
        ⟨[0, 0, 0, 0, 0, 0, 0, 5], []⟩ := by
  constructor
  · intro hinside
    exact absurd (hinside.name 7 (by decide)) (by decide)
  · intro hinside
    exact absurd (hinside.value 7 (by decide)) (by decide)

end PdoCassandra.Properties.DecoderBounds
