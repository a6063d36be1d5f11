import PdoCassandra.Properties.LongType

/-!
# The labels of a row

PDO has every column of a fetched row described before it reads one.  A label is
a C string; where a name is decoded as hex, it may go on with what the decoder's
block holds behind the decoded bytes.
-/

namespace PdoCassandra.Properties.RowLabels

open PdoCassandra.Foundation
open PdoCassandra.Foundation.CString
open PdoCassandra.Driver
open PdoCassandra.Properties.LongType
open PdoCassandra.Thrift

variable {unparse : Bytes → Bytes}

/-! ## A described row -/

/-- A row that has been fetched and not been described yet. -/
structure Undescribed (stmt : Stmt) (row : CqlRow) : Prop where
  current : stmt.row = .ok row
  width : row.columns.length < 2 ^ 31
  columns : stmt.columns = none
  count : stmt.columnCount.toInt = row.columns.length

/-- The label of a column once PDO has had the row described. -/
def describedLabel (unparse : Bytes → Bytes) (H : DbHandle) (heaps : Nat → Heap)
    (stmt : Stmt) (colno : Int32) : Option Bytes :=
  (stmt.describeColumns unparse H heaps).2.label colno

theorem Undescribed.column_eq {stmt : Stmt} {row : CqlRow} (hrow : Undescribed stmt row)
    {colno : Int32} {col : Column} (hcol : stmt.column colno = some col) :
    row.columns[colno.toInt.toNat]? = some col := by
  simp only [Stmt.column, hrow.current, getElem?_sizeT hrow.width] at hcol
  split at hcol
  · exact hcol
  · cases hcol

theorem describedLabel_eq {stmt : Stmt} {row : CqlRow} (hrow : Undescribed stmt row)
    (H : DbHandle) (heaps : Nat → Heap) {colno : Int32} {col : Column}
    (hcol : stmt.column colno = some col) :
    describedLabel unparse H heaps stmt colno =
      some (columnLabel unparse (heaps colno.toInt.toNat) (H.cfDef stmt.columnFamily) col) := by
  obtain ⟨described, hdescribe, -, hentries⟩ :=
    Stmt.describeColumns_eq unparse H heaps hrow.current hrow.width hrow.columns hrow.count
  simp only [describedLabel, hdescribe, Stmt.label, hentries, describedColumn,
    hrow.column_eq hcol]
  rfl

/-! ## Integer names -/

theorem columnLabel_of_long (heap : Heap) {cfdef : CfDef}
    (hlong : cfdef.comparatorType = marshal "LongType") {col : Column}
    (hlength : col.name.length = 8) :
    columnLabel unparse heap (some cfdef) col = decimal (longValue col.name) := by
  have hkey : col.name ≠ bytesOf "KEY" := by
    intro heq
    rw [heq] at hlength
    exact absurd hlength (by decide)
  have hislong : isLong cfdef.comparatorType = true := decide_eq_true hlong
  rw [columnLabel, columnName_long unparse heap hkey hislong, convertToString_eq,
    deserializeLong_toInt heap hlength]

/-- Names of eight bytes are integers, and stay apart as labels. -/
theorem longType_round_trip :
    (∀ heap n, -2 ^ 63 ≤ n → n < 2 ^ 63 →
      (deserializeLong heap (encodeLong n)).toInt = n) ∧
    (∀ heap (text : Bytes), text.length = 8 →
      encodeLong (deserializeLong heap text).toInt = text) ∧
    ∀ unparse H heaps stmt row cfdef, Undescribed stmt row →
      H.cfDef stmt.columnFamily = some cfdef →
      cfdef.comparatorType = marshal "LongType" →
      (∀ colno col, stmt.column colno = some col → col.name.length = 8 →
        describedLabel unparse H heaps stmt colno = some (decimal (longValue col.name))) ∧
      ∀ colno other left right, stmt.column colno = some left →
        stmt.column other = some right → left.name.length = 8 → right.name.length = 8 →
        left.name ≠ right.name →
        describedLabel unparse H heaps stmt colno ≠ describedLabel unparse H heaps stmt other := by
  refine ⟨fun heap n hlow hhigh => ?_, fun heap text hlength => ?_, ?_⟩
  · rw [deserializeLong_toInt heap (length_encodeLong n), longValue_encodeLong hlow hhigh]
  · rw [deserializeLong_toInt heap hlength, encodeLong_longValue hlength]
  · intro unparse H heaps stmt row cfdef hrow hcfdef hlong
    have hlabel {colno : Int32} {col : Column} (hcol : stmt.column colno = some col)
        (hlength : col.name.length = 8) :
        describedLabel unparse H heaps stmt colno = some (decimal (longValue col.name)) := by
      rw [describedLabel_eq hrow H heaps hcol, hcfdef, columnLabel_of_long _ hlong hlength]
    refine ⟨fun colno col hcol hlength => hlabel hcol hlength, ?_⟩
    intro colno other left right hleft hright hleftLength hrightLength hne hsame
    rw [hlabel hleft hleftLength, hlabel hright hrightLength, Option.some_inj] at hsame
    have hvalue := decimal_injective hsame
    apply hne
    rw [← encodeLong_longValue hleftLength, hvalue, encodeLong_longValue hrightLength]

/-- A cached keyspace with one column family. -/
def cachedNames (comparatorType : Bytes) : DbHandle :=
  ⟨bytesOf "ks", fun _ => some ⟨bytesOf "ks", [{ name := bytesOf "c", comparatorType }]⟩⟩

theorem cfDef_cachedNames (comparatorType : Bytes) :
    (cachedNames comparatorType).cfDef (bytesOf "c") =
      some { name := bytesOf "c", comparatorType } := by
  simp [DbHandle.cfDef, cachedNames]

/-- A fetched row with two columns of these names. -/
def namedRow (left right : Bytes) : Stmt :=
  { result := some
      { type := .rows, rows := [⟨[⟨left, bytesOf "x"⟩, ⟨right, bytesOf "y"⟩]⟩] }
    columnFamily := bytesOf "c"
    columnCount := 2 }

theorem undescribed_namedRow (left right : Bytes) :
    Undescribed (namedRow left right) ⟨[⟨left, bytesOf "x"⟩, ⟨right, bytesOf "y"⟩]⟩ :=
  ⟨rfl, by simp, rfl, rfl⟩

theorem longType_round_trip_two :
    (deserializeLong Heap.zeros (encodeLong (-2))).toInt = -2 ∧
      encodeLong (deserializeLong Heap.zeros [0, 0, 0, 0, 0, 0, 0, 1]).toInt =
        [0, 0, 0, 0, 0, 0, 0, 1] ∧
      describedLabel id (cachedNames (marshal "LongType")) (fun _ => Heap.zeros)
          (namedRow [0, 0, 0, 0, 0, 0, 0, 1] [0, 0, 0, 0, 0, 0, 0, 2]) 0 ≠
        describedLabel id (cachedNames (marshal "LongType")) (fun _ => Heap.zeros)
          (namedRow [0, 0, 0, 0, 0, 0, 0, 1] [0, 0, 0, 0, 0, 0, 0, 2]) 1 := by
  obtain ⟨hdecode, hencode, hlabels⟩ := longType_round_trip
  refine ⟨hdecode _ _ (by decide) (by decide), hencode _ _ rfl, ?_⟩
  exact (hlabels _ _ _ _ _ _ (undescribed_namedRow _ _) (cfDef_cachedNames _) rfl).2
    0 1 _ _ rfl rfl rfl rfl (by decide)

/-! ## Other names -/

/-- The bytes that a name is decoded to, if it is decoded. -/
def decodedName (cfdef : CfDef) (name : Bytes) : Option Bytes :=
  if name ≠ bytesOf "KEY" ∧ cfdef.comparatorType = marshal "BytesType" then
    hexBytes (cstr name)
  else none

/-- A C string, or the beginning of one. -/
structure Label where
  text : Bytes
  isOpen : Bool
  nulFree : 0 ∉ text

/-- The decoder writes no terminator: only a zero among the bytes ends them. -/
def labelOf (cfdef : CfDef) (name : Bytes) : Label :=
  match decodedName cfdef name with
  | none => ⟨cstr name, false, cstr_nulFree name⟩
  | some decoded => ⟨cstr decoded, 0 ∉ decoded, cstr_nulFree decoded⟩

/-- The C strings that a label can turn out to be. -/
def Label.Shows (label : Label) (text : Bytes) : Prop :=
  ∃ more, text = label.text ++ more ∧ 0 ∉ more ∧ (label.isOpen = false → more = [])

/-- Two labels are the same text, or an open one is a beginning of the other. -/
def Label.Clash (left right : Label) : Prop :=
  left.text = right.text ∨ (left.isOpen = true ∧ left.text <+: right.text) ∨
    (right.isOpen = true ∧ right.text <+: left.text)

theorem Label.clash_iff (left right : Label) :
    left.Clash right ↔ ∃ text, left.Shows text ∧ right.Shows text := by
  constructor
  · rintro (hsame | ⟨hopen, more, hmore⟩ | ⟨hopen, more, hmore⟩)
    · exact ⟨left.text, ⟨[], by simp⟩, ⟨[], by simp [hsame]⟩⟩
    · refine ⟨right.text, ⟨more, hmore.symm, ?_, by simp [hopen]⟩, ⟨[], by simp⟩⟩
      exact fun hmem => right.nulFree (by rw [← hmore]; simp [hmem])
    · refine ⟨left.text, ⟨[], by simp⟩, ⟨more, hmore.symm, ?_, by simp [hopen]⟩⟩
      exact fun hmem => left.nulFree (by rw [← hmore]; simp [hmem])
  · rintro ⟨text, ⟨more, hleft, -, hclosed⟩, ⟨other, hright, -, hclosed'⟩⟩
    have hprefix : left.text <+: text := ⟨more, hleft.symm⟩
    have hprefix' : right.text <+: text := ⟨other, hright.symm⟩
    rcases List.prefix_or_prefix_of_prefix hprefix hprefix' with hshort | hshort
    · cases hopen : left.isOpen with
      | true => exact Or.inr (Or.inl ⟨hopen, hshort⟩)
      | false =>
          rw [hclosed hopen, List.append_nil] at hleft
          subst hleft
          exact Or.inl (hshort.eq_of_length_le hprefix'.length_le)
    · cases hopen : right.isOpen with
      | true => exact Or.inr (Or.inr ⟨hopen, hshort⟩)
      | false =>
          rw [hclosed' hopen, List.append_nil] at hright
          subst hright
          exact Or.inl (hshort.eq_of_length_le hprefix.length_le).symm

/-- A comparator whose names are neither integers nor UUIDs. -/
def PlainComparator (cfdef : CfDef) : Prop :=
  cfdef.comparatorType ≠ marshal "LongType" ∧ cfdef.comparatorType ≠ marshal "UUIDType"

theorem columnLabel_of_plain (heap : Heap) {cfdef : CfDef} (hplain : PlainComparator cfdef)
    (col : Column) :
    columnLabel unparse heap (some cfdef) col =
      match decodedName cfdef col.name with
      | none => cstr col.name
      | some decoded =>
          cstr (decoded ++ (heap.malloc (decoded.length + 1)).drop decoded.length) := by
  have hlong : isLong cfdef.comparatorType = false := decide_eq_false hplain.1
  unfold columnLabel decodedName
  by_cases hkey : col.name = bytesOf "KEY"
  · rw [columnName_key unparse heap hkey, if_neg fun hboth => hboth.1 hkey]
    rfl
  · rcases comparator_cases cfdef with hislong | hisuuid | hbytes | hraw
    · rw [hlong] at hislong
      cases hislong
    · exact absurd hisuuid hplain.2
    · rw [columnName_bytes unparse heap hkey hbytes, if_pos ⟨hkey, hbytes⟩]
      cases hdecoded : hexBytes (cstr col.name) with
      | none => rfl
      | some decoded =>
          have hhalf : (cstr col.name).length / 2 = decoded.length := by
            rw [hexBytes_length hdecoded]
            omega
          simp only [hhalf]
    · rw [columnName_raw unparse heap hraw, if_neg fun hboth => hraw.bytes hboth.2]
      rfl

/-- Every label that a name can get is one that it shows. -/
theorem labelOf_shows (heap : Heap) {cfdef : CfDef} (hplain : PlainComparator cfdef)
    (col : Column) :
    (labelOf cfdef col.name).Shows (columnLabel unparse heap (some cfdef) col) := by
  rw [columnLabel_of_plain heap hplain]
  unfold labelOf
  cases decodedName cfdef col.name with
  | none => exact ⟨[], by simp, by simp, fun _ => rfl⟩
  | some decoded =>
      by_cases hmem : 0 ∈ decoded
      · refine ⟨[], ?_, by simp, fun _ => rfl⟩
        simp only [List.append_nil]
        exact cstr_append_of_mem hmem _
      · refine ⟨cstr ((heap.malloc (decoded.length + 1)).drop decoded.length), ?_,
          cstr_nulFree _, by simp [hmem]⟩
        simp only [cstr_append hmem, (cstr_eq_self_iff decoded).mpr hmem]

/-- Every text that a label shows is one that the name can get. -/
theorem exists_columnLabel {cfdef : CfDef} (hplain : PlainComparator cfdef) (col : Column)
    {text : Bytes} (hshows : (labelOf cfdef col.name).Shows text) :
    ∃ heap, columnLabel unparse heap (some cfdef) col = text := by
  obtain ⟨more, htext, hfree, hclosed⟩ := hshows
  refine ⟨heapBehind more, ?_⟩
  rw [columnLabel_of_plain _ hplain]
  unfold labelOf at htext hclosed
  cases hdecoded : decodedName cfdef col.name with
  | none =>
      simp only [hdecoded] at htext hclosed
      rw [htext, hclosed trivial, List.append_nil]
  | some decoded =>
      simp only [hdecoded] at htext hclosed
      by_cases hmem : 0 ∈ decoded
      · rw [htext, hclosed (by simp [hmem]), List.append_nil]
        exact cstr_append_of_mem hmem _
      · have hblock : ((heapBehind more).malloc (decoded.length + 1)).drop decoded.length =
            more ++ [0] := by
          simp only [heapBehind, Nat.add_sub_cancel, List.append_assoc]
          exact List.drop_left' List.length_replicate
        have hboth : 0 ∉ decoded ++ more := by
          rw [List.mem_append, not_or]
          exact ⟨hmem, hfree⟩
        rw [htext, (cstr_eq_self_iff decoded).mpr hmem]
        simp only [hblock, ← List.append_assoc]
        exact cstr_append_nul hboth []

/-- Two columns of a row never share a label exactly when their labels do not clash. -/
theorem describe_labels_iff {H : DbHandle} {stmt : Stmt} {row : CqlRow} {cfdef : CfDef}
    {colno other : Int32} {left right : Column} (hrow : Undescribed stmt row)
    (hcfdef : H.cfDef stmt.columnFamily = some cfdef) (hplain : PlainComparator cfdef)
    (hleft : stmt.column colno = some left) (hright : stmt.column other = some right)
    (hne : left.name ≠ right.name) :
    (∀ heaps, describedLabel unparse H heaps stmt colno ≠
        describedLabel unparse H heaps stmt other) ↔
      ¬ (labelOf cfdef left.name).Clash (labelOf cfdef right.name) := by
  have hlabels (heaps : Nat → Heap) :
      (describedLabel unparse H heaps stmt colno = describedLabel unparse H heaps stmt other) ↔
        columnLabel unparse (heaps colno.toInt.toNat) (some cfdef) left =
          columnLabel unparse (heaps other.toInt.toNat) (some cfdef) right := by
    rw [describedLabel_eq hrow H heaps hleft, describedLabel_eq hrow H heaps hright, hcfdef,
      Option.some_inj]
  rw [Label.clash_iff, ← not_exists]
  refine not_congr ⟨?_, ?_⟩
  · rintro ⟨heaps, hsame⟩
    have hshows : (labelOf cfdef left.name).Shows
        (columnLabel unparse (heaps colno.toInt.toNat) (some cfdef) left) :=
      labelOf_shows _ hplain left
    refine ⟨_, hshows, ?_⟩
    rw [(hlabels heaps).mp hsame]
    exact labelOf_shows _ hplain right
  · rintro ⟨text, hshows, hshows'⟩
    obtain ⟨heap, hheap⟩ : ∃ heap, columnLabel unparse heap (some cfdef) left = text :=
      exists_columnLabel hplain left hshows
    obtain ⟨heap', hheap'⟩ : ∃ heap, columnLabel unparse heap (some cfdef) right = text :=
      exists_columnLabel hplain right hshows'
    -- each column is described in a call of its own
    have hnumbers : colno.toInt.toNat ≠ other.toInt.toNat := by
      intro heq
      have hsame := hrow.column_eq hleft
      rw [heq, hrow.column_eq hright] at hsame
      exact hne (congrArg Column.name (Option.some.inj hsame)).symm
    refine ⟨Function.update (fun _ => heap) other.toInt.toNat heap', (hlabels _).mpr ?_⟩
    rw [Function.update_self, Function.update_of_ne hnumbers, hheap, hheap']

theorem describe_labels_iff_text :
    (∀ heaps, describedLabel id (cachedNames (marshal "UTF8Type")) heaps
          (namedRow (bytesOf "a") (bytesOf "b")) 0 ≠
        describedLabel id (cachedNames (marshal "UTF8Type")) heaps
          (namedRow (bytesOf "a") (bytesOf "b")) 1) ↔
      ¬ (labelOf { name := bytesOf "c", comparatorType := marshal "UTF8Type" }
          (bytesOf "a")).Clash
        (labelOf { name := bytesOf "c", comparatorType := marshal "UTF8Type" }
          (bytesOf "b")) := by
  have hplain : PlainComparator
      { name := bytesOf "c", comparatorType := marshal "UTF8Type" } := by
    constructor <;> decide
  have hleft : (namedRow (bytesOf "a") (bytesOf "b")).column 0 =
      some ⟨bytesOf "a", bytesOf "x"⟩ := rfl
  have hright : (namedRow (bytesOf "a") (bytesOf "b")).column 1 =
      some ⟨bytesOf "b", bytesOf "y"⟩ := rfl
  exact describe_labels_iff (undescribed_namedRow _ _) (cfDef_cachedNames _) hplain hleft
    hright (by decide)

/--
Text names lose what stands behind a zero byte, and a name that reads as hex
takes the label of the name it decodes to.
-/
theorem not_describe_labels_nul_and_hex :
    describedLabel id (cachedNames (marshal "UTF8Type")) (fun _ => Heap.zeros)
        (namedRow [ch 'a', 0, ch 'b'] [ch 'a', 0, ch 'c']) 0 =
      describedLabel id (cachedNames (marshal "UTF8Type")) (fun _ => Heap.zeros)
        (namedRow [ch 'a', 0, ch 'b'] [ch 'a', 0, ch 'c']) 1 ∧
    describedLabel id (cachedNames (marshal "BytesType")) (fun _ => Heap.zeros)
        (namedRow (bytesOf "61") (bytesOf "a")) 0 =
      describedLabel id (cachedNames (marshal "BytesType")) (fun _ => Heap.zeros)
        (namedRow (bytesOf "61") (bytesOf "a")) 1 := by
  constructor
  · decide
  · decide

end PdoCassandra.Properties.RowLabels
