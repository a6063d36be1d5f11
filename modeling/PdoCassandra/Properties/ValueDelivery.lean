import PdoCassandra.Properties.LongType
import PdoCassandra.Properties.ResultIsolation

/-!
# What `get_col` delivers

A value that is not decoded is delivered as a C string.  Whether it is decoded is
settled by the hard-coded key name and the listed columns alone, and the two ways
of decoding a `LongType` value part at the smallest integer.
-/

namespace PdoCassandra.Properties.ValueDelivery

open PdoCassandra.Foundation.CString
open PdoCassandra.Driver
open PdoCassandra.Properties.LongType
open PdoCassandra.Properties.ResultIsolation
open PdoCassandra.Thrift

/-! ## The two kinds of value -/

theorem columnValue_of_raw (heap : Heap) {cfdef : CfDef} {col : Column}
    (hraw : isLong (validator cfdef col.name) = false) :
    columnValue heap (some cfdef) col = cstr col.value := by
  rw [columnValue, columnPtr_of_raw heap hraw, CharPtr.read_estrdup]

/-- For a `KEY` of type long, PDO finds what is left of the array. -/
theorem columnValue_of_longKey (heap : Heap) {cfdef : CfDef} {col : Column}
    (hkey : LongKey cfdef col.name) : columnValue heap (some cfdef) col = heap.dead := by
  have hdead := (columnPtr_storage heap (some cfdef) col).mpr ⟨cfdef, rfl, hkey⟩
  rw [columnValue, CharPtr.read, hdead]

theorem columnValue_of_long (heap : Heap) {cfdef : CfDef} {col : Column}
    (hlong : isLong (validator cfdef col.name) = true) (hlive : ¬ LongKey cfdef col.name) :
    columnValue heap (some cfdef) col = longText col.name (deserializeLong heap col.value) := by
  have hptr := congrArg CharPtr.text (columnPtr_of_long heap hlong)
  refine (columnValue_of_live (fun found hfound => ?_) heap).trans hptr
  cases hfound
  exact hlive

/-- Both ways give the decimal text of every integer but the smallest. -/
theorem longText_eq (heap : Heap) (name : Bytes) {str : Bytes} (hlength : str.length = 8)
    (hmin : longValue str ≠ -2 ^ 63) :
    longText name (deserializeLong heap str) = decimal (longValue str) := by
  have hbits : deserializeLong heap str ≠ BitVec.intMin 64 := by
    rw [deserializeLong_eq heap hlength]
    exact fun heq => hmin ((longValue_eq_min_iff str).mpr heq)
  unfold longText
  split
  · rw [ltoa_eq hbits, deserializeLong_toInt heap hlength]
  · rw [convertToString_eq, deserializeLong_toInt heap hlength]

/-! ## Values that are not decoded -/

/-- The value is decoded as a `LongType`. -/
def DecodesLong (H : DbHandle) (stmt : Stmt) (col : Column) : Prop :=
  ∃ cfdef, H.cfDef stmt.columnFamily = some cfdef ∧
    isLong (validator cfdef col.name) = true

theorem columnPtr_of_not_decodesLong (heap : Heap) {H : DbHandle} {stmt : Stmt}
    {col : Column} (hraw : ¬ DecodesLong H stmt col) :
    columnPtr heap (H.cfDef stmt.columnFamily) col = estrdup col.value := by
  cases hcfdef : H.cfDef stmt.columnFamily with
  | none => rfl
  | some cfdef =>
      refine columnPtr_of_raw heap (Bool.eq_false_iff.mpr fun hlong => ?_)
      exact hraw ⟨cfdef, hcfdef, hlong⟩

/-- An undecoded value is delivered byte for byte exactly when it holds no NUL. -/
theorem getCol_raw_iff {heap : Heap} {H : DbHandle} {stmt : Stmt} {colno : Int32}
    {col : Column} {ptr : Option CharPtr} (hcol : stmt.column colno = some col)
    (hraw : ¬ DecodesLong H stmt col)
    (hcall : pdoCassandraStmtGetCol heap H stmt colno = (.ret 1, ptr)) :
    (ptr.map fun ptr => ptr.read heap.dead) = some col.value ↔ 0 ∉ col.value := by
  obtain ⟨found, hfound, rfl⟩ := pdoCassandraStmtGetCol_ret_one.mp hcall
  cases hcol.symm.trans hfound
  rw [columnPtr_of_not_decodesLong heap hraw, Option.map_some, CharPtr.read_estrdup,
    Option.some_inj, cstr_eq_self_iff]

/-- A handle that has the keyspace of one column family in its cache. -/
def cached (cfdef : CfDef) : DbHandle :=
  ⟨bytesOf "ks", fun _ => some ⟨bytesOf "ks", [cfdef]⟩⟩

/-- A column family that lists a column of type bytes. -/
def blobs : CfDef :=
  { name := bytesOf "c", columnMetadata := [⟨bytesOf "a", marshal "BytesType"⟩] }

/-- A row of one column. -/
def oneColumn (name value : Bytes) : Stmt :=
  { result := some { type := .rows, rows := [⟨[⟨name, value⟩]⟩] }
    columnFamily := bytesOf "c"
    columnCount := 1 }

theorem not_decodesLong_blobs (value : Bytes) :
    ¬ DecodesLong (cached blobs) (oneColumn (bytesOf "a") value) ⟨bytesOf "a", value⟩ := by
  have hbytes : isLong (validator blobs (bytesOf "a")) = false := by decide
  rintro ⟨cfdef, hcfdef, hlong⟩
  cases hcfdef
  cases hbytes.symm.trans hlong

theorem getCol_raw_iff_text :
    ∃ ptr, pdoCassandraStmtGetCol Heap.zeros (cached blobs) (oneColumn (bytesOf "a") [1, 2]) 0 =
        (.ret 1, ptr) ∧
      ((ptr.map fun ptr => ptr.read Heap.zeros.dead) = some [1, 2] ↔ 0 ∉ ([1, 2] : Bytes)) := by
  have hcol : (oneColumn (bytesOf "a") [1, 2]).column 0 = some ⟨bytesOf "a", [1, 2]⟩ := rfl
  exact ⟨_, rfl, @getCol_raw_iff Heap.zeros _ _ _ _ _ hcol (not_decodesLong_blobs _) rfl⟩

/-- A blob loses what stands behind its first zero byte. -/
theorem not_getCol_raw_blob :
    (oneColumn (bytesOf "a") [1, 0, 2]).column 0 = some ⟨bytesOf "a", [1, 0, 2]⟩ ∧
      ¬ DecodesLong (cached blobs) (oneColumn (bytesOf "a") [1, 0, 2])
        ⟨bytesOf "a", [1, 0, 2]⟩ ∧
      pdoCassandraStmtGetCol Heap.zeros (cached blobs) (oneColumn (bytesOf "a") [1, 0, 2]) 0 =
        (.ret 1, some ⟨[1], .emalloc⟩) :=
  ⟨rfl, not_decodesLong_blobs _, by decide⟩

/-! ## The two ways of decoding a `LongType` value -/

/-- A column that get_col decodes as a `LongType`. -/
structure LongColumn (H : DbHandle) (stmt : Stmt) (colno : Int32) (name value : Bytes) :
    Prop where
  column : stmt.column colno = some ⟨name, value⟩
  decodes : DecodesLong H stmt ⟨name, value⟩

/-- What get_col returns, with the text at `*ptr` as it stands then. -/
def getColText (heap : Heap) (H : DbHandle) (stmt : Stmt) (colno : Int32) :
    Exit × Option Bytes :=
  let (exit, ptr) := pdoCassandraStmtGetCol heap H stmt colno
  (exit, ptr.map CharPtr.text)

theorem getColText_long (heap : Heap) {H : DbHandle} {stmt : Stmt} {colno : Int32}
    {name value : Bytes} (hcol : LongColumn H stmt colno name value) :
    getColText heap H stmt colno =
      (.ret 1, some (longText name (deserializeLong heap value))) := by
  obtain ⟨cfdef, hcfdef, hlong⟩ := hcol.decodes
  have hcall := (@pdoCassandraStmtGetCol_ret_one heap H _ _ _).mpr ⟨_, hcol.column, rfl⟩
  simp only [getColText, hcall, hcfdef, Option.map_some, columnPtr_of_long heap hlong]

/--
A `KEY` column and a listed one give the same text for the same eight bytes,
unless they encode the smallest integer.
-/
theorem getCol_long_agree_iff {heap other : Heap} {H I : DbHandle} {stmt listed : Stmt}
    {colno listedno : Int32} {name value : Bytes}
    (hkey : LongColumn H stmt colno (bytesOf "KEY") value)
    (hlisted : LongColumn I listed listedno name value) (hname : name ≠ bytesOf "KEY")
    (hlength : value.length = 8) :
    getColText heap H stmt colno = getColText other I listed listedno ↔
      longValue value ≠ -2 ^ 63 := by
  rw [getColText_long heap hkey, getColText_long other hlisted]
  simp only [Prod.mk.injEq, true_and, Option.some.injEq]
  constructor
  · intro hsame hmin
    have hbits := (longValue_eq_min_iff value).mp hmin
    have hint := deserializeLong_toInt other hlength
    unfold longText at hsame
    rw [if_pos rfl, if_neg hname, convertToString_eq, hint, hmin,
      deserializeLong_eq heap hlength, hbits] at hsame
    exact ltoa_intMin hsame
  · intro hmin
    rw [longText_eq heap _ hlength hmin, longText_eq other _ hlength hmin]

/-- A column family whose key and whose column `n` are of type `LongType`. -/
def counters : DbHandle :=
  ⟨bytesOf "ks", fun _ => some ⟨bytesOf "ks",
    [{ name := bytesOf "c"
       columnMetadata := [⟨bytesOf "n", marshal "LongType"⟩]
       keyValidationClass := marshal "LongType" }]⟩⟩

/-- A row that holds the same value under both names. -/
def counterRow (value : Bytes) : Stmt :=
  { result := some
      { type := .rows, rows := [⟨[⟨bytesOf "KEY", value⟩, ⟨bytesOf "n", value⟩]⟩] }
    columnFamily := bytesOf "c"
    columnCount := 2 }

theorem longColumn_key (value : Bytes) :
    LongColumn counters (counterRow value) 0 (bytesOf "KEY") value :=
  ⟨rfl, _, rfl, rfl⟩

theorem longColumn_listed (value : Bytes) :
    LongColumn counters (counterRow value) 1 (bytesOf "n") value :=
  ⟨rfl, _, rfl, rfl⟩

theorem getCol_long_agree_iff_one :
    getColText Heap.zeros counters (counterRow [0, 0, 0, 0, 0, 0, 0, 1]) 0 =
        getColText Heap.zeros counters (counterRow [0, 0, 0, 0, 0, 0, 0, 1]) 1 ↔
      longValue [0, 0, 0, 0, 0, 0, 0, 1] ≠ -2 ^ 63 :=
  getCol_long_agree_iff (longColumn_key _) (longColumn_listed _) (by decide) rfl

/-- For the smallest integer, `ltoa` writes other characters than digits. -/
theorem not_getCol_long_agree_min :
    getColText Heap.zeros counters (counterRow [0x80, 0, 0, 0, 0, 0, 0, 0]) 0 =
        (.ret 1, some (bytesOf "-'..--).0-*(+,))+(0(")) ∧
      getColText Heap.zeros counters (counterRow [0x80, 0, 0, 0, 0, 0, 0, 0]) 1 =
        (.ret 1, some (bytesOf "-9223372036854775808")) := by
  have hkey : longText (bytesOf "KEY")
      (deserializeLong Heap.zeros [0x80, 0, 0, 0, 0, 0, 0, 0]) =
        bytesOf "-'..--).0-*(+,))+(0(" := by
    decide +kernel
  have hlisted : longText (bytesOf "n")
      (deserializeLong Heap.zeros [0x80, 0, 0, 0, 0, 0, 0, 0]) =
        bytesOf "-9223372036854775808" := by
    decide +kernel
  rw [getColText_long _ (longColumn_key _), getColText_long _ (longColumn_listed _), hkey,
    hlisted]
  exact ⟨rfl, rfl⟩

/-! ## The type of a column -/

/-- The name under which the rows of a column family carry their key. -/
def keyName (cfdef : CfDef) : Bytes :=
  if cfdef.keyAlias = [] then bytesOf "KEY" else cfdef.keyAlias

/-- The class of a column that is not the key. -/
def columnClass (cfdef : CfDef) (name : Bytes) : Bytes :=
  match CfDef.columnDef cfdef name with
  | some columnDef => columnDef.validationClass
  | none => cfdef.defaultValidationClass

/-- The class that the schema gives a column. -/
def schemaValidator (cfdef : CfDef) (name : Bytes) : Bytes :=
  if name = keyName cfdef then cfdef.keyValidationClass else columnClass cfdef name

/-- What the schema makes of a value: its own bytes, or a decimal text. -/
structure DeliveredBySchema (cfdef : CfDef) (name value text : Bytes) : Prop where
  raw : isLong (schemaValidator cfdef name) = false → 0 ∉ value → text = value
  long : isLong (schemaValidator cfdef name) = true → value.length = 8 →
    longValue value ≠ -2 ^ 63 → text = decimal (longValue value)

/-- get_col delivers every value of a column as the schema has it. -/
def DecodesBySchema (cfdef : CfDef) (name : Bytes) : Prop :=
  ∀ (heap : Heap) (H : DbHandle) (stmt : Stmt) (colno : Int32) (value : Bytes)
    (ptr : Option CharPtr),
    H.cfDef stmt.columnFamily = some cfdef → stmt.column colno = some ⟨name, value⟩ →
    pdoCassandraStmtGetCol heap H stmt colno = (.ret 1, ptr) →
    ∃ text, (ptr.map fun ptr => ptr.read heap.dead) = some text ∧
      DeliveredBySchema cfdef name value text

/-- It is enough to look at the text of each value. -/
theorem decodesBySchema_iff (cfdef : CfDef) (name : Bytes) :
    DecodesBySchema cfdef name ↔
      ∀ heap value, DeliveredBySchema cfdef name value
        (columnValue heap (some cfdef) ⟨name, value⟩) := by
  constructor
  · intro hall heap value
    have hcfdef : DbHandle.cfDef ⟨[], fun _ => some ⟨[], [cfdef]⟩⟩ cfdef.name = some cfdef := by
      simp [DbHandle.cfDef]
    obtain ⟨text, htext, hdelivered⟩ := hall heap _
      { oneColumn name value with columnFamily := cfdef.name } 0 value _ hcfdef rfl
      (pdoCassandraStmtGetCol_ret_one.mpr ⟨_, rfl, rfl⟩)
    rw [hcfdef] at htext
    cases htext
    exact hdelivered
  · intro hall heap H stmt colno value ptr hcfdef hcol hcall
    obtain ⟨found, hfound, rfl⟩ := pdoCassandraStmtGetCol_ret_one.mp hcall
    cases hcol.symm.trans hfound
    rw [hcfdef]
    exact ⟨_, rfl, hall heap value⟩

/-- What is left of an array is neither the text of a number nor a value. -/
theorem not_longKey_of_decodes {cfdef : CfDef} {name : Bytes}
    (hall : ∀ heap value, DeliveredBySchema cfdef name value
      (columnValue heap (some cfdef) ⟨name, value⟩)) : ¬ LongKey cfdef name := by
  intro hkey
  have hdead (value : Bytes) : columnValue Heap.zeros (some cfdef) ⟨name, value⟩ = [] :=
    columnValue_of_longKey Heap.zeros hkey
  cases hschema : isLong (schemaValidator cfdef name) with
  | true =>
      have htext := (hall Heap.zeros [0, 0, 0, 0, 0, 0, 0, 65]).long hschema rfl (by decide)
      rw [hdead] at htext
      exact absurd htext (by decide +kernel)
  | false =>
      have htext := (hall Heap.zeros [1]).raw hschema (by decide)
      rw [hdead] at htext
      cases htext

/--
get_col decodes as the schema has it exactly when the two classes agree, and the text
of a number is left where PDO can read it.
-/
theorem decodesBySchema_iff_classes (cfdef : CfDef) (name : Bytes) :
    DecodesBySchema cfdef name ↔
      isLong (validator cfdef name) = isLong (schemaValidator cfdef name) ∧
        ¬ LongKey cfdef name := by
  rw [decodesBySchema_iff]
  constructor
  · intro hall
    have hlive := not_longKey_of_decodes hall
    refine ⟨?_, hlive⟩
    cases hlong : isLong (validator cfdef name) with
    | true =>
        cases hschema : isLong (schemaValidator cfdef name) with
        | true => rfl
        | false =>
            have hmin : longValue [1, 1, 1, 1, 1, 1, 1, 1] ≠ -2 ^ 63 := by decide
            have hne : decimal (longValue [1, 1, 1, 1, 1, 1, 1, 1]) ≠
                [1, 1, 1, 1, 1, 1, 1, 1] := by
              decide +kernel
            have htext := (hall Heap.zeros [1, 1, 1, 1, 1, 1, 1, 1]).raw hschema (by decide)
            rw [columnValue_of_long _ hlong hlive, longText_eq _ _ rfl hmin] at htext
            exact absurd htext hne
    | false =>
        cases hschema : isLong (schemaValidator cfdef name) with
        | false => rfl
        | true =>
            have hne : cstr [0, 0, 0, 0, 0, 0, 0, 65] ≠
                decimal (longValue [0, 0, 0, 0, 0, 0, 0, 65]) := by
              decide +kernel
            have htext := (hall Heap.zeros [0, 0, 0, 0, 0, 0, 0, 65]).long hschema rfl
              (by decide)
            rw [columnValue_of_raw _ hlong] at htext
            exact absurd htext hne
  · rintro ⟨hsame, hlive⟩ heap value
    refine ⟨fun hschema hfree => ?_, fun hschema hlength hmin => ?_⟩
    · rw [columnValue_of_raw heap (hsame.trans hschema)]
      exact (cstr_eq_self_iff value).mpr hfree
    · rw [columnValue_of_long heap (hsame.trans hschema) hlive,
        longText_eq heap name hlength hmin]

/--
Which columns these are: a key under the name `KEY` that is no number, and a listed
column that is no key.  Elsewhere the class that is not looked at has to do by chance.
-/
def ClassIsFound (cfdef : CfDef) (name : Bytes) : Prop :=
  if name = bytesOf "KEY" then
    isLong cfdef.keyValidationClass = false ∧
      (name = keyName cfdef ∨ isLong (columnClass cfdef name) = false)
  else if name = keyName cfdef then
    isLong cfdef.keyValidationClass =
      ((CfDef.columnDef cfdef name).any fun columnDef => isLong columnDef.validationClass)
  else
    (CfDef.columnDef cfdef name).isSome = true ∨ isLong cfdef.defaultValidationClass = false

theorem classes_agree_iff (cfdef : CfDef) (name : Bytes) :
    isLong (validator cfdef name) = isLong (schemaValidator cfdef name) ∧
        ¬ LongKey cfdef name ↔
      ClassIsFound cfdef name := by
  have hnone : isLong [] = false := by decide
  unfold validator schemaValidator ClassIsFound LongKey
  by_cases hkey : name = bytesOf "KEY"
  · rw [if_pos hkey, if_pos hkey, and_iff_right hkey, Bool.not_eq_true, and_comm]
    refine and_congr_right fun hlong => ?_
    by_cases hname : name = keyName cfdef
    · rw [if_pos hname]
      exact iff_of_true rfl (Or.inl hname)
    · rw [if_neg hname, or_iff_right hname, hlong]
      exact eq_comm
  · rw [if_neg hkey, if_neg hkey, and_iff_left fun hboth => hkey hboth.1]
    by_cases hname : name = keyName cfdef
    · rw [if_pos hname, if_pos hname]
      cases CfDef.columnDef cfdef name with
      | none =>
          simp only [Option.map_none, Option.getD_none, Option.any_none, hnone]
          exact eq_comm
      | some columnDef => exact eq_comm
    · rw [if_neg hname, if_neg hname, columnClass]
      cases CfDef.columnDef cfdef name with
      | none =>
          simp only [Option.map_none, Option.getD_none, Option.isSome_none, hnone,
            Bool.false_eq_true, false_or]
          exact eq_comm
      | some columnDef => exact iff_of_true rfl (Or.inl rfl)

/-- The columns whose values are all delivered as the schema has them. -/
theorem getCol_decodes_iff (cfdef : CfDef) (name : Bytes) :
    DecodesBySchema cfdef name ↔ ClassIsFound cfdef name :=
  (decodesBySchema_iff_classes cfdef name).trans (classes_agree_iff cfdef name)

/-- A column family of integers that are not listed one by one. -/
def unlisted : CfDef :=
  { name := bytesOf "c", defaultValidationClass := marshal "LongType" }

/-- A column family whose integer key is not called `KEY`. -/
def aliased : CfDef :=
  { name := bytesOf "c"
    keyValidationClass := marshal "LongType"
    keyAlias := bytesOf "id" }

/-- A column family whose integer key is. -/
def longKeyed : CfDef :=
  { name := bytesOf "c", keyValidationClass := marshal "LongType" }

/--
Neither the default class nor the alias of the key is looked at, and the text of an
integer key that is called `KEY` is gone when PDO reads it.
-/
theorem not_decodesBySchema_default_and_alias :
    (pdoCassandraStmtGetCol Heap.zeros (cached unlisted)
          (oneColumn (bytesOf "n") [0, 0, 0, 0, 0, 0, 0, 65]) 0 =
        (.ret 1, some ⟨[], .emalloc⟩) ∧
      ¬ DeliveredBySchema unlisted (bytesOf "n") [0, 0, 0, 0, 0, 0, 0, 65] []) ∧
    (pdoCassandraStmtGetCol Heap.zeros (cached aliased)
          (oneColumn (bytesOf "id") [0, 0, 0, 0, 0, 0, 0, 65]) 0 =
        (.ret 1, some ⟨[], .emalloc⟩) ∧
      ¬ DeliveredBySchema aliased (bytesOf "id") [0, 0, 0, 0, 0, 0, 0, 65] []) ∧
    pdoCassandraStmtGetCol Heap.zeros (cached longKeyed)
          (oneColumn (bytesOf "KEY") [0, 0, 0, 0, 0, 0, 0, 65]) 0 =
        (.ret 1, some ⟨bytesOf "65", .deadBlock⟩) ∧
      ¬ DeliveredBySchema longKeyed (bytesOf "KEY") [0, 0, 0, 0, 0, 0, 0, 65]
        Heap.zeros.dead := by
  have hne : ([] : Bytes) ≠ decimal (longValue [0, 0, 0, 0, 0, 0, 0, 65]) := by
    decide +kernel
  refine ⟨⟨by decide, fun hdelivered => ?_⟩, ⟨by decide, fun hdelivered => ?_⟩, by decide,
    fun hdelivered => ?_⟩
  · exact hne (hdelivered.long (by decide) rfl (by decide))
  · exact hne (hdelivered.long (by decide) rfl (by decide))
  · exact hne (hdelivered.long (by decide) rfl (by decide))

end PdoCassandra.Properties.ValueDelivery
