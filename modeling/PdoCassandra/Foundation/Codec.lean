import Mathlib.Data.List.Forall2
import PdoCassandra.Foundation.OrderedMap
import PdoCassandra.Foundation.Skip

/-!
# How the values of a type are written and read

A value is read onto the object that is there: a number or a text replaces it, a
list or a map is emptied first.
-/

namespace PdoCassandra.Foundation.Wire

open PdoCassandra.Foundation.CString

variable {P : Protocol}

/--
How the values of a type are written and read.  A value has wires besides the one
that is written for it; `overlay old value` is what is read onto `old` from any of them.
-/
structure Codec (P : Protocol) (Value : Type) where
  type : TType
  write : Value → Bytes
  read : Value → Reader Value
  overlay : Value → Value → Value
  Fits : Value → Prop
  Denotes : Value → Bytes → Prop
  known : type.known = true
  reads : ∀ old {value wire}, Denotes value wire → Reads (read old) wire (overlay old value)
  spells : ∀ {value wire}, Denotes value wire → Spells P.toEncoding (.value type) wire
  write_denotes : ∀ {value}, Fits value → Denotes value (write value)
  consumes : ∀ old, Consumes (read old)

namespace Codec

variable {Value : Type}

/-- A value that is a single datum. -/
def datum (P : Protocol) (datum : Datum) (type : TType) (htype : datum.type = some type) :
    Codec P datum.Value where
  type := type
  write := P.write datum
  read _ := P.read datum
  overlay _ value := value
  Fits := datum.Fits
  Denotes value wire := datum.Fits value ∧ wire = P.write datum value
  known := Datum.known_of_type htype
  reads := by
    rintro _ value wire ⟨hfits, rfl⟩
    exact P.read_write hfits
  spells := by
    rintro value wire ⟨hfits, rfl⟩
    exact Spells.datum htype hfits
  write_denotes hfits := ⟨hfits, rfl⟩
  consumes _ := P.read_consumes datum

def bool (P : Protocol) : Codec P Bool := datum P .bool .bool rfl

def i32 (P : Protocol) : Codec P Int32 := datum P .i32 .i32 rfl

def i64 (P : Protocol) : Codec P Int64 := datum P .i64 .i64 rfl

def double (P : Protocol) : Codec P UInt64 := datum P .double .double rfl

def string (P : Protocol) : Codec P Bytes := datum P .string .string rfl

/-! ## Lists -/

/-- Read a number of values, each onto a fresh one. -/
def readValues (codec : Codec P Value) (fresh : Value) : Nat → Reader (List Value)
  | 0 => pure []
  | count + 1 => do
      let value ← codec.read fresh
      let values ← readValues codec fresh count
      pure (value :: values)

theorem readValues_reads (codec : Codec P Value) (fresh : Value) {values : List Value}
    {wires : List Bytes} (hdenotes : List.Forall₂ codec.Denotes values wires) :
    Reads (readValues codec fresh values.length) wires.flatten
      (values.map (codec.overlay fresh)) := by
  induction hdenotes with
  | nil => exact Reads.pure []
  | @cons value wire values wires hvalue hvalues ih =>
      exact (codec.reads fresh hvalue).bind
        (ih.bind_pure fun values => codec.overlay fresh value :: values)

/-- A value that is refused ends the read of the list, whatever was to follow. -/
theorem readValues_fails (codec : Codec P Value) (fresh : Value) {values : List Value}
    {wires : List Bytes} (hdenotes : List.Forall₂ codec.Denotes values wires) {bad : Bytes}
    {failure : Failure} (hbad : Fails (codec.read fresh) bad failure) (count : Nat) :
    Fails (readValues codec fresh (values.length + (count + 1))) (wires.flatten ++ bad)
      failure := by
  induction hdenotes with
  | nil =>
      rw [List.length_nil, Nat.zero_add]
      exact hbad.first
  | @cons value wire values wires hvalue hvalues ih =>
      rw [List.length_cons, Nat.add_right_comm, List.flatten_cons, List.append_assoc]
      exact Fails.bind (codec.reads fresh hvalue) ih.first

theorem readValues_consumes (codec : Codec P Value) (fresh : Value) (count : Nat) :
    Consumes (readValues codec fresh count) := by
  induction count with
  | zero => exact Consumes.pure []
  | succ count ih =>
      exact (codec.consumes fresh).bind fun _ => ih.bind fun _ => Consumes.pure _

theorem spells_values (codec : Codec P Value) {values : List Value} {wires : List Bytes}
    (hdenotes : List.Forall₂ codec.Denotes values wires) :
    Spells P.toEncoding (.values codec.type values.length) wires.flatten := by
  induction hdenotes with
  | nil => exact Spells.noValues
  | cons hvalue hvalues ih => exact Spells.moreValues (codec.spells hvalue) ih

/-- A length that the wire can carry is not cut off by its own width. -/
theorem toNat_ofNat_length {Element : Type} {values : List Element}
    (hsize : values.length < Datum.sizeLimit) :
    (UInt32.ofNat values.length).toNat = values.length :=
  UInt32.toNat_ofNat_of_lt' (Nat.lt_trans hsize (by decide))

def writeListBegin (codec : Codec P Value) (values : List Value) : Bytes :=
  P.write .listBegin (codec.type, UInt32.ofNat values.length)

/-- A list of a length that the wire can carry, each value by a wire of its own. -/
def ListDenotes (codec : Codec P Value) (values : List Value) (wire : Bytes) : Prop :=
  values.length < Datum.sizeLimit ∧ ∃ wires, List.Forall₂ codec.Denotes values wires ∧
    wire = writeListBegin codec values ++ wires.flatten

/-- The list is emptied, resized, and read value by value. -/
def list (codec : Codec P Value) (fresh : Value) : Codec P (List Value) where
  type := .list
  write values := writeListBegin codec values ++ values.flatMap codec.write
  read _ := do
    let begun ← P.read .listBegin
    readValues codec fresh begun.2.toNat
  overlay _ values := values.map (codec.overlay fresh)
  Fits values :=
    values.length < Datum.sizeLimit ∧ ∀ value ∈ values, codec.Fits value
  Denotes := ListDenotes codec
  known := rfl
  reads := by
    rintro _ values wire ⟨hsize, wires, hdenotes, rfl⟩
    have hlength := toNat_ofNat_length hsize
    have hbegin : Datum.Fits .listBegin (codec.type, UInt32.ofNat values.length) :=
      ⟨codec.known, by rw [hlength]; exact hsize⟩
    refine (P.read_write hbegin).bind ?_
    rw [hlength]
    exact readValues_reads codec fresh hdenotes
  spells := by
    rintro values wire ⟨hsize, wires, hdenotes, rfl⟩
    have hlength := toNat_ofNat_length hsize
    refine Spells.list ⟨codec.known, by rw [hlength]; exact hsize⟩ ?_
    rw [hlength]
    exact spells_values codec hdenotes
  write_denotes := by
    rintro values ⟨hsize, hvalues⟩
    refine ⟨hsize, values.map codec.write, ?_, by rw [List.flatMap_def]⟩
    rw [List.forall₂_map_right_iff, List.forall₂_same]
    exact fun value hmem => codec.write_denotes (hvalues value hmem)
  consumes _ :=
    (P.read_consumes .listBegin).bind fun begun =>
      readValues_consumes codec fresh begun.2.toNat

theorem list_fails (codec : Codec P Value) (fresh : Value) {values : List Value}
    {wires : List Bytes} (hdenotes : List.Forall₂ codec.Denotes values wires) {bad : Bytes}
    {failure : Failure} (hbad : Fails (codec.read fresh) bad failure) {type : TType}
    {size : UInt32} (hbegin : Datum.Fits .listBegin (type, size))
    (hsize : values.length < size.toNat) (old : List Value) :
    Fails ((list codec fresh).read old)
      (P.write .listBegin (type, size) ++ (wires.flatten ++ bad)) failure := by
  obtain ⟨count, hcount⟩ := Nat.exists_eq_add_of_lt hsize
  have hvalues := readValues_fails codec fresh hdenotes hbad count
  rw [← Nat.add_assoc, ← hcount] at hvalues
  exact Fails.bind (P.read_write hbegin) hvalues

/-! ## Maps from strings to strings -/

abbrev StringMap := OrderedMap Bytes Bytes

def StringMap.put (map : StringMap) (key value : Bytes) : StringMap := map.insert key value

/-- The bytes of an entry. -/
def writeEntry (P : Protocol) (entry : Bytes × Bytes) : Bytes :=
  P.write .string entry.1 ++ P.write .string entry.2

def EntryFits (entry : Bytes × Bytes) : Prop :=
  entry.1.length < Datum.sizeLimit ∧ entry.2.length < Datum.sizeLimit

/-- Read a number of entries into a map; a key that comes again gets the new value. -/
def readEntries (P : Protocol) : Nat → StringMap → Reader StringMap
  | 0, map => pure map
  | count + 1, map => do
      let key ← P.read .string
      let value ← P.read .string
      readEntries P count (map.put key value)

theorem string_reads {text : Bytes} (hfits : text.length < Datum.sizeLimit) :
    Reads (P.read .string) (P.write .string text) text :=
  (string P).reads [] ((string P).write_denotes hfits)

theorem string_spells {text : Bytes} (hfits : text.length < Datum.sizeLimit) :
    Spells P.toEncoding (.value .string) (P.write .string text) :=
  (string P).spells ((string P).write_denotes hfits)

theorem readEntries_reads {entries : List (Bytes × Bytes)} (map : StringMap)
    (hfits : ∀ entry ∈ entries, EntryFits entry) :
    Reads (readEntries P entries.length map) (entries.flatMap (writeEntry P))
      (entries.foldl (fun map entry => map.insert entry.1 entry.2) map) := by
  induction entries generalizing map with
  | nil => exact Reads.pure map
  | cons entry entries ih =>
      obtain ⟨hkey, hvalue⟩ := hfits entry List.mem_cons_self
      have hrest := ih (map.insert entry.1 entry.2) fun entry hmem =>
        hfits entry (List.mem_cons_of_mem _ hmem)
      rw [List.flatMap_cons, writeEntry, List.append_assoc]
      exact (string_reads hkey).bind ((string_reads hvalue).bind hrest)

theorem readEntries_consumes (count : Nat) (map : StringMap) :
    Consumes (readEntries P count map) := by
  induction count generalizing map with
  | zero => exact Consumes.pure map
  | succ count ih =>
      exact (P.read_consumes .string).bind fun key =>
        (P.read_consumes .string).bind fun value => ih (map.put key value)

theorem spells_entries {entries : List (Bytes × Bytes)}
    (hfits : ∀ entry ∈ entries, EntryFits entry) :
    Spells P.toEncoding (.entries .string .string entries.length)
      (entries.flatMap (writeEntry P)) := by
  induction entries with
  | nil => exact Spells.noEntries
  | cons entry entries ih =>
      obtain ⟨hkey, hvalue⟩ := hfits entry List.mem_cons_self
      have hentries := ih fun entry hmem => hfits entry (List.mem_cons_of_mem _ hmem)
      rw [List.flatMap_cons, writeEntry, List.append_assoc]
      exact Spells.moreEntries (string_spells hkey) (string_spells hvalue) hentries

def writeMapBegin (P : Protocol) (size : Nat) : Bytes :=
  P.write .mapBegin (.string, .string, UInt32.ofNat size)

/-- Entries that build the map, in any order and under any key more than once. -/
def MapDenotes (P : Protocol) (map : StringMap) (wire : Bytes) : Prop :=
  ∃ entries : List (Bytes × Bytes), entries.length < Datum.sizeLimit ∧
    (∀ entry ∈ entries, EntryFits entry) ∧
    entries.foldl (fun map entry => map.insert entry.1 entry.2) OrderedMap.empty = map ∧
    wire = writeMapBegin P entries.length ++ entries.flatMap (writeEntry P)

/-- The map is emptied and read entry by entry; it is written in the order of its keys. -/
def stringMap (P : Protocol) : Codec P StringMap where
  type := .map
  write map := writeMapBegin P map.entries.length ++ map.entries.flatMap (writeEntry P)
  read _ := do
    let begun ← P.read .mapBegin
    readEntries P begun.2.2.toNat OrderedMap.empty
  overlay _ map := map
  Fits map := map.entries.length < Datum.sizeLimit ∧ ∀ entry ∈ map.entries, EntryFits entry
  Denotes := MapDenotes P
  known := rfl
  reads := by
    rintro _ map wire ⟨entries, hsize, hfits, rfl, rfl⟩
    have hlength := toNat_ofNat_length hsize
    have hbegin : Datum.Fits .mapBegin (.string, .string, UInt32.ofNat entries.length) :=
      ⟨rfl, rfl, by rw [hlength]; exact hsize⟩
    refine (P.read_write hbegin).bind ?_
    rw [hlength]
    exact readEntries_reads OrderedMap.empty hfits
  spells := by
    rintro map wire ⟨entries, hsize, hfits, rfl, rfl⟩
    have hlength := toNat_ofNat_length hsize
    refine Spells.map ⟨rfl, rfl, by rw [hlength]; exact hsize⟩ ?_
    rw [hlength]
    exact spells_entries hfits
  write_denotes := by
    rintro map ⟨hsize, hfits⟩
    exact ⟨map.entries, hsize, hfits, map.foldl_insert_empty, rfl⟩
  consumes _ :=
    (P.read_consumes .mapBegin).bind fun begun =>
      readEntries_consumes begun.2.2.toNat OrderedMap.empty

end Codec

end PdoCassandra.Foundation.Wire
