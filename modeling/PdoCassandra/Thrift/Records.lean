import PdoCassandra.Foundation.Record
import PdoCassandra.Thrift.Types

/-!
# The records of `cassandra_types.cpp` on the wire

Each record has all of its members, with the values that its constructor gives
them, and the table that its `read` and its `write` go through.  An optional
member is a slot: its value and its flag in `__isset`.
-/

namespace PdoCassandra.Thrift.Records

open PdoCassandra.Foundation
open PdoCassandra.Foundation.CString
open PdoCassandra.Foundation.Wire

variable (P : Protocol)

/-- The bits of a `double`. -/
abbrev Double := UInt64

/-- A `double` of one of the defaults, by its bits. -/
def double200000 : Double := 0x41086A0000000000

def double1 : Double := 0x3FF0000000000000

/-! ## Exceptions -/

/-- An exception with its reason. -/
structure WhyException where
  why : Bytes := []
  deriving DecidableEq

namespace WhyException

def record : Record P WhyException where
  fields := [.always 1 (.string P) ⟨why, fun why e => { e with why }, fun _ => rfl⟩]
  nodup := List.pairwise_singleton _ _
  apart := List.pairwise_singleton _ _

end WhyException

abbrev InvalidRequestException := WhyException
abbrev AuthenticationException := WhyException
abbrev AuthorizationException := WhyException

/-- An exception without members. -/
structure EmptyException where
  deriving DecidableEq

namespace EmptyException

def record : Record P EmptyException where
  fields := []
  nodup := List.Pairwise.nil
  apart := List.Pairwise.nil

end EmptyException

abbrev NotFoundException := EmptyException
abbrev UnavailableException := EmptyException
abbrev TimedOutException := EmptyException
abbrev SchemaDisagreementException := EmptyException

/-! ## Requests -/

structure AuthenticationRequest where
  credentials : Codec.StringMap := OrderedMap.empty

namespace AuthenticationRequest

def record : Record P AuthenticationRequest where
  fields :=
    [.always 1 (.stringMap P)
      ⟨credentials, fun credentials request => { request with credentials }, fun _ => rfl⟩]
  nodup := List.pairwise_singleton _ _
  apart := List.pairwise_singleton _ _

end AuthenticationRequest

/-! ## Results -/

structure Column where
  name : Bytes := []
  value : Slot Bytes := .unset []
  timestamp : Slot Int64 := .unset 0
  ttl : Slot Int32 := .unset 0
  deriving DecidableEq

namespace Column

def fields : List (Field P Column) :=
  [.always 1 (.string P) ⟨name, fun name r => { r with name }, fun _ => rfl⟩,
   .slot 2 (.string P) ⟨value, fun value r => { r with value }, fun _ => rfl⟩,
   .slot 3 (.i64 P) ⟨timestamp, fun timestamp r => { r with timestamp }, fun _ => rfl⟩,
   .slot 4 (.i32 P) ⟨ttl, fun ttl r => { r with ttl }, fun _ => rfl⟩]

theorem fields_nodup : ((fields P).map Field.id).Nodup := by
  change ([1, 2, 3, 4] : List Int16).Nodup
  decide

theorem fields_apart : (fields P).Pairwise Field.Apart := by
  simp only [fields, List.pairwise_cons, List.forall_mem_cons, List.not_mem_nil,
    false_imp_iff, implies_true, and_true, List.Pairwise.nil]
  and_intros
  all_goals
    intro value other object
    rfl

def record : Record P Column := ⟨fields P, fields_nodup P, fields_apart P⟩

/-- What a reader has of the record. -/
def received (c : Column) : Column where
  name := c.name
  value := c.value.received [] id
  timestamp := c.timestamp.received 0 id
  ttl := c.ttl.received 0 id

theorem overlay_fresh (c : Column) : (record P).overlay {} c = c.received := by
  rw [Record.overlay_eq_foldl]
  simp only [record, fields, List.foldl_cons, List.foldl_nil, Field.overlay_always,
    Field.overlay_slot]
  rfl

end Column

structure CqlRow where
  key : Bytes := []
  columns : List Column := []
  deriving DecidableEq

namespace CqlRow

def fields : List (Field P CqlRow) :=
  [.always 1 (.string P) ⟨key, fun key r => { r with key }, fun _ => rfl⟩,
   .always 2 (.list (Column.record P).codec {})
     ⟨columns, fun columns r => { r with columns }, fun _ => rfl⟩]

theorem fields_nodup : ((fields P).map Field.id).Nodup := by
  change ([1, 2] : List Int16).Nodup
  decide

theorem fields_apart : (fields P).Pairwise Field.Apart := by
  simp only [fields, List.pairwise_cons, List.forall_mem_cons, List.not_mem_nil,
    false_imp_iff, implies_true, and_true, List.Pairwise.nil]
  all_goals
    intro value other object
    rfl

def record : Record P CqlRow := ⟨fields P, fields_nodup P, fields_apart P⟩

/-- What a reader has of the record. -/
def received (r : CqlRow) : CqlRow where
  key := r.key
  columns := r.columns.map Column.received

theorem overlay_fresh (r : CqlRow) : (record P).overlay {} r = r.received := by
  rw [Record.overlay_eq_foldl]
  change (⟨r.key, r.columns.map ((Column.record P).overlay {})⟩ : CqlRow) = _
  rw [funext (Column.overlay_fresh P)]
  rfl

end CqlRow

/-- The constructor leaves `type` as it finds it. -/
structure CqlResult where
  type : Int32 := 0
  rows : Slot (List CqlRow) := .unset []
  num : Slot Int32 := .unset 0
  deriving DecidableEq

namespace CqlResult

def fields : List (Field P CqlResult) :=
  [.always 1 (.i32 P) ⟨type, fun type r => { r with type }, fun _ => rfl⟩,
   .slot 2 (.list (CqlRow.record P).codec {})
     ⟨rows, fun rows r => { r with rows }, fun _ => rfl⟩,
   .slot 3 (.i32 P) ⟨num, fun num r => { r with num }, fun _ => rfl⟩]

theorem fields_nodup : ((fields P).map Field.id).Nodup := by
  change ([1, 2, 3] : List Int16).Nodup
  decide

theorem fields_apart : (fields P).Pairwise Field.Apart := by
  simp only [fields, List.pairwise_cons, List.forall_mem_cons, List.not_mem_nil,
    false_imp_iff, implies_true, and_true, List.Pairwise.nil]
  and_intros
  all_goals
    intro value other object
    rfl

def record : Record P CqlResult := ⟨fields P, fields_nodup P, fields_apart P⟩

/-- What a reader has of the record. -/
def received (r : CqlResult) : CqlResult where
  type := r.type
  rows := r.rows.received [] (List.map CqlRow.received)
  num := r.num.received 0 id

theorem overlay_fresh (r : CqlResult) : (record P).overlay {} r = r.received := by
  have hrows : (CqlRow.record P).codec.overlay {} = CqlRow.received :=
    funext (CqlRow.overlay_fresh P)
  rw [Record.overlay_eq_foldl]
  simp only [record, fields, List.foldl_cons, List.foldl_nil, Field.overlay_always,
    Field.overlay_slot, Slot.onto, Codec.list, hrows]
  rfl

end CqlResult

/-! ## Schema records -/

/-- The constructor leaves `index_type` as it finds it. -/
structure ColumnDef where
  name : Bytes := []
  validationClass : Bytes := []
  indexType : Slot Int32 := .unset 0
  indexName : Slot Bytes := .unset []
  deriving DecidableEq

namespace ColumnDef

def fields : List (Field P ColumnDef) :=
  [.always 1 (.string P) ⟨name, fun name r => { r with name }, fun _ => rfl⟩,
   .always 2 (.string P)
     ⟨validationClass, fun validationClass r => { r with validationClass }, fun _ => rfl⟩,
   .slot 3 (.i32 P) ⟨indexType, fun indexType r => { r with indexType }, fun _ => rfl⟩,
   .slot 4 (.string P) ⟨indexName, fun indexName r => { r with indexName }, fun _ => rfl⟩]

theorem fields_nodup : ((fields P).map Field.id).Nodup := by
  change ([1, 2, 3, 4] : List Int16).Nodup
  decide

theorem fields_apart : (fields P).Pairwise Field.Apart := by
  simp only [fields, List.pairwise_cons, List.forall_mem_cons, List.not_mem_nil,
    false_imp_iff, implies_true, and_true, List.Pairwise.nil]
  and_intros
  all_goals
    intro value other object
    rfl

def record : Record P ColumnDef := ⟨fields P, fields_nodup P, fields_apart P⟩

/-- What a reader has of the record. -/
def received (c : ColumnDef) : ColumnDef where
  name := c.name
  validationClass := c.validationClass
  indexType := c.indexType.received 0 id
  indexName := c.indexName.received [] id

theorem overlay_fresh (c : ColumnDef) : (record P).overlay {} c = c.received := by
  rw [Record.overlay_eq_foldl]
  simp only [record, fields, List.foldl_cons, List.foldl_nil, Field.overlay_always,
    Field.overlay_slot]
  rfl

end ColumnDef

structure CfDef where
  keyspace : Bytes := []
  name : Bytes := []
  columnType : Slot Bytes := .unset (bytesOf "Standard")
  comparatorType : Slot Bytes := .unset (bytesOf "BytesType")
  subcomparatorType : Slot Bytes := .unset []
  comment : Slot Bytes := .unset []
  rowCacheSize : Slot Double := .unset 0
  keyCacheSize : Slot Double := .unset double200000
  readRepairChance : Slot Double := .unset double1
  columnMetadata : Slot (List ColumnDef) := .unset []
  gcGraceSeconds : Slot Int32 := .unset 0
  defaultValidationClass : Slot Bytes := .unset []
  id : Slot Int32 := .unset 0
  minCompactionThreshold : Slot Int32 := .unset 0
  maxCompactionThreshold : Slot Int32 := .unset 0
  rowCacheSavePeriodInSeconds : Slot Int32 := .unset 0
  keyCacheSavePeriodInSeconds : Slot Int32 := .unset 0
  memtableFlushAfterMins : Slot Int32 := .unset 0
  memtableThroughputInMb : Slot Int32 := .unset 0
  memtableOperationsInMillions : Slot Double := .unset 0
  replicateOnWrite : Slot Bool := .unset false
  mergeShardsChance : Slot Double := .unset 0
  keyValidationClass : Slot Bytes := .unset []
  rowCacheProvider : Slot Bytes :=
    .unset (bytesOf "org.apache.cassandra.cache.ConcurrentLinkedHashCacheProvider")
  keyAlias : Slot Bytes := .unset []
  deriving DecidableEq

namespace CfDef

def fields : List (Field P CfDef) :=
  [.always 1 (.string P) ⟨keyspace, fun keyspace r => { r with keyspace }, fun _ => rfl⟩,
   .always 2 (.string P) ⟨name, fun name r => { r with name }, fun _ => rfl⟩,
   .slot 3 (.string P) ⟨columnType, fun columnType r => { r with columnType }, fun _ => rfl⟩,
   .slot 5 (.string P)
     ⟨comparatorType, fun comparatorType r => { r with comparatorType }, fun _ => rfl⟩,
   .slot 6 (.string P)
     ⟨subcomparatorType, fun subcomparatorType r => { r with subcomparatorType }, fun _ => rfl⟩,
   .slot 8 (.string P) ⟨comment, fun comment r => { r with comment }, fun _ => rfl⟩,
   .slot 9 (.double P)
     ⟨rowCacheSize, fun rowCacheSize r => { r with rowCacheSize }, fun _ => rfl⟩,
   .slot 11 (.double P)
     ⟨keyCacheSize, fun keyCacheSize r => { r with keyCacheSize }, fun _ => rfl⟩,
   .slot 12 (.double P)
     ⟨readRepairChance, fun readRepairChance r => { r with readRepairChance }, fun _ => rfl⟩,
   .slot 13 (.list (ColumnDef.record P).codec {})
     ⟨columnMetadata, fun columnMetadata r => { r with columnMetadata }, fun _ => rfl⟩,
   .slot 14 (.i32 P)
     ⟨gcGraceSeconds, fun gcGraceSeconds r => { r with gcGraceSeconds }, fun _ => rfl⟩,
   .slot 15 (.string P)
     ⟨defaultValidationClass,
       fun defaultValidationClass r => { r with defaultValidationClass }, fun _ => rfl⟩,
   .slot 16 (.i32 P) ⟨id, fun id r => { r with id }, fun _ => rfl⟩,
   .slot 17 (.i32 P)
     ⟨minCompactionThreshold,
       fun minCompactionThreshold r => { r with minCompactionThreshold }, fun _ => rfl⟩,
   .slot 18 (.i32 P)
     ⟨maxCompactionThreshold,
       fun maxCompactionThreshold r => { r with maxCompactionThreshold }, fun _ => rfl⟩,
   .slot 19 (.i32 P)
     ⟨rowCacheSavePeriodInSeconds,
       fun rowCacheSavePeriodInSeconds r => { r with rowCacheSavePeriodInSeconds }, fun _ => rfl⟩,
   .slot 20 (.i32 P)
     ⟨keyCacheSavePeriodInSeconds,
       fun keyCacheSavePeriodInSeconds r => { r with keyCacheSavePeriodInSeconds }, fun _ => rfl⟩,
   .slot 21 (.i32 P)
     ⟨memtableFlushAfterMins,
       fun memtableFlushAfterMins r => { r with memtableFlushAfterMins }, fun _ => rfl⟩,
   .slot 22 (.i32 P)
     ⟨memtableThroughputInMb,
       fun memtableThroughputInMb r => { r with memtableThroughputInMb }, fun _ => rfl⟩,
   .slot 23 (.double P)
     ⟨memtableOperationsInMillions,
       fun memtableOperationsInMillions r => { r with memtableOperationsInMillions }, fun _ => rfl⟩,
   .slot 24 (.bool P)
     ⟨replicateOnWrite, fun replicateOnWrite r => { r with replicateOnWrite }, fun _ => rfl⟩,
   .slot 25 (.double P)
     ⟨mergeShardsChance, fun mergeShardsChance r => { r with mergeShardsChance }, fun _ => rfl⟩,
   .slot 26 (.string P)
     ⟨keyValidationClass, fun keyValidationClass r => { r with keyValidationClass }, fun _ => rfl⟩,
   .slot 27 (.string P)
     ⟨rowCacheProvider, fun rowCacheProvider r => { r with rowCacheProvider }, fun _ => rfl⟩,
   .slot 28 (.string P) ⟨keyAlias, fun keyAlias r => { r with keyAlias }, fun _ => rfl⟩]

theorem fields_nodup : ((fields P).map Field.id).Nodup := by
  change ([1, 2, 3, 5, 6, 8, 9, 11, 12, 13, 14, 15, 16, 17,
    18, 19, 20, 21, 22, 23, 24, 25, 26, 27, 28] : List Int16).Nodup
  decide

theorem fields_apart : (fields P).Pairwise Field.Apart := by
  simp only [fields, List.pairwise_cons, List.forall_mem_cons, List.not_mem_nil,
    false_imp_iff, implies_true, and_true, List.Pairwise.nil]
  and_intros
  all_goals
    intro value other object
    rfl

def record : Record P CfDef := ⟨fields P, fields_nodup P, fields_apart P⟩

/-- What a reader has of the record. -/
def received (c : CfDef) : CfDef where
  keyspace := c.keyspace
  name := c.name
  columnType := c.columnType.received (bytesOf "Standard") (fun value => value)
  comparatorType := c.comparatorType.received (bytesOf "BytesType") (fun value => value)
  subcomparatorType := c.subcomparatorType.received [] (fun value => value)
  comment := c.comment.received [] (fun value => value)
  rowCacheSize := c.rowCacheSize.received 0 (fun value => value)
  keyCacheSize := c.keyCacheSize.received double200000 (fun value => value)
  readRepairChance := c.readRepairChance.received double1 (fun value => value)
  columnMetadata := c.columnMetadata.received [] (List.map ColumnDef.received)
  gcGraceSeconds := c.gcGraceSeconds.received 0 (fun value => value)
  defaultValidationClass := c.defaultValidationClass.received [] (fun value => value)
  id := c.id.received 0 (fun value => value)
  minCompactionThreshold := c.minCompactionThreshold.received 0 (fun value => value)
  maxCompactionThreshold := c.maxCompactionThreshold.received 0 (fun value => value)
  rowCacheSavePeriodInSeconds := c.rowCacheSavePeriodInSeconds.received 0 (fun value => value)
  keyCacheSavePeriodInSeconds := c.keyCacheSavePeriodInSeconds.received 0 (fun value => value)
  memtableFlushAfterMins := c.memtableFlushAfterMins.received 0 (fun value => value)
  memtableThroughputInMb := c.memtableThroughputInMb.received 0 (fun value => value)
  memtableOperationsInMillions := c.memtableOperationsInMillions.received 0 (fun value => value)
  replicateOnWrite := c.replicateOnWrite.received false (fun value => value)
  mergeShardsChance := c.mergeShardsChance.received 0 (fun value => value)
  keyValidationClass := c.keyValidationClass.received [] (fun value => value)
  rowCacheProvider := c.rowCacheProvider.received
    (bytesOf "org.apache.cassandra.cache.ConcurrentLinkedHashCacheProvider") (fun value => value)
  keyAlias := c.keyAlias.received [] (fun value => value)

theorem overlay_fresh (c : CfDef) : (record P).overlay {} c = c.received := by
  have hcolumns : (ColumnDef.record P).codec.overlay {} = ColumnDef.received :=
    funext (ColumnDef.overlay_fresh P)
  rw [Record.overlay_eq_foldl]
  simp only [record, fields, List.foldl_cons, List.foldl_nil, Field.overlay_always,
    Field.overlay_slot, Slot.onto, Codec.list, hcolumns]
  rfl

end CfDef

structure KsDef where
  name : Bytes := []
  strategyClass : Bytes := []
  strategyOptions : Slot Codec.StringMap := .unset OrderedMap.empty
  replicationFactor : Slot Int32 := .unset 0
  cfDefs : List CfDef := []
  durableWrites : Slot Bool := .unset true

namespace KsDef

def fields : List (Field P KsDef) :=
  [.always 1 (.string P) ⟨name, fun name r => { r with name }, fun _ => rfl⟩,
   .always 2 (.string P)
     ⟨strategyClass, fun strategyClass r => { r with strategyClass }, fun _ => rfl⟩,
   .slot 3 (.stringMap P)
     ⟨strategyOptions, fun strategyOptions r => { r with strategyOptions }, fun _ => rfl⟩,
   .slot 4 (.i32 P)
     ⟨replicationFactor, fun replicationFactor r => { r with replicationFactor }, fun _ => rfl⟩,
   .always 5 (.list (CfDef.record P).codec {})
     ⟨cfDefs, fun cfDefs r => { r with cfDefs }, fun _ => rfl⟩,
   .slot 6 (.bool P)
     ⟨durableWrites, fun durableWrites r => { r with durableWrites }, fun _ => rfl⟩]

theorem fields_nodup : ((fields P).map Field.id).Nodup := by
  change ([1, 2, 3, 4, 5, 6] : List Int16).Nodup
  decide

theorem fields_apart : (fields P).Pairwise Field.Apart := by
  simp only [fields, List.pairwise_cons, List.forall_mem_cons, List.not_mem_nil,
    false_imp_iff, implies_true, and_true, List.Pairwise.nil]
  and_intros
  all_goals
    intro value other object
    rfl

def record : Record P KsDef := ⟨fields P, fields_nodup P, fields_apart P⟩

/-- What a reader has of the record. -/
def received (k : KsDef) : KsDef where
  name := k.name
  strategyClass := k.strategyClass
  strategyOptions := k.strategyOptions.received OrderedMap.empty id
  replicationFactor := k.replicationFactor.received 0 id
  cfDefs := k.cfDefs.map CfDef.received
  durableWrites := k.durableWrites.received true id

theorem overlay_fresh (k : KsDef) : (record P).overlay {} k = k.received := by
  have hcfDefs : (CfDef.record P).codec.overlay {} = CfDef.received :=
    funext (CfDef.overlay_fresh P)
  rw [Record.overlay_eq_foldl]
  simp only [record, fields, List.foldl_cons, List.foldl_nil, Field.overlay_always,
    Field.overlay_slot, Codec.list, hcfDefs]
  rfl

end KsDef

end PdoCassandra.Thrift.Records
