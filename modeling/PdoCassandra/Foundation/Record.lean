import Mathlib.Data.List.Pairwise
import Mathlib.Data.List.Perm.Basic
import PdoCassandra.Foundation.Codec

/-!
# Records on the wire

A record is given by the table of its fields.  Writing goes through the table and
leaves out the fields that are not set.  Reading takes the fields in any order,
passes over what the table does not have, and asks at the end for the required
ones; a field that does not come keeps what the object had.
-/

namespace PdoCassandra.Foundation.Wire

open PdoCassandra.Foundation.CString

variable {P : Protocol} {Object : Type}

/-! ## Members and fields -/

structure Member (Object Value : Type) where
  get : Object → Value
  put : Value → Object → Object
  put_get : ∀ object, put (get object) object = object

/-- A member with a flag that tells whether it is set. -/
structure Slot (Value : Type) where
  value : Value
  isset : Bool
  deriving DecidableEq

namespace Slot

def unset {Value : Type} (value : Value) : Slot Value := ⟨value, false⟩

/-- What is read onto a slot from what is written of another. -/
def onto {Value : Type} (codec : Codec P Value) (old slot : Slot Value) : Slot Value :=
  if slot.isset then ⟨codec.overlay old.value slot.value, true⟩ else old

/-- A slot as a reader has it that starts from what the constructor gives. -/
def received {Value : Type} (fresh : Value) (read : Value → Value) (slot : Slot Value) :
    Slot Value :=
  if slot.isset then ⟨read slot.value, true⟩ else unset fresh

end Slot

/-- A line of a table: a number, and how its value is written and read. -/
structure Field (P : Protocol) (Object : Type) where
  id : Int16
  {Value : Type}
  codec : Codec P Value
  get : Object → Value
  /-- Store a value, and note that it is set. -/
  put : Value → Object → Object
  required : Bool
  /-- Whether writing emits the field. -/
  present : Object → Bool
  present_of_required : required = true → ∀ object, present object = true

namespace Field

/-- A member that is always written, and without which a record is not read. -/
def always {Value : Type} (id : Int16) (codec : Codec P Value)
    (member : Member Object Value) : Field P Object where
  id := id
  codec := codec
  get := member.get
  put := member.put
  required := true
  present _ := true
  present_of_required _ _ := rfl

/-- A member that is always written, and that a reader does without. -/
def plain {Value : Type} (id : Int16) (codec : Codec P Value)
    (member : Member Object Value) : Field P Object :=
  { always id codec member with
    required := false
    present_of_required := nofun }

/-- A member that is written only when its flag is set. -/
def slot {Value : Type} (id : Int16) (codec : Codec P Value)
    (member : Member Object (Slot Value)) : Field P Object where
  id := id
  codec := codec
  get object := (member.get object).value
  put value := member.put ⟨value, true⟩
  required := false
  present object := (member.get object).isset
  present_of_required hrequired := nomatch hrequired

/-- Read a value onto the member of an object. -/
def store (field : Field P Object) (value : field.Value) (object : Object) : Object :=
  field.put (field.codec.overlay (field.get object) value) object

/-- Read onto an object what is written of another. -/
def overlay (old object : Object) (field : Field P Object) : Object :=
  if field.present object then field.store (field.get object) old else old

theorem overlay_always {Value : Type} (id : Int16) (codec : Codec P Value)
    (member : Member Object Value) (old object : Object) :
    overlay old object (always id codec member) =
      member.put (codec.overlay (member.get old) (member.get object)) old := rfl

theorem overlay_slot {Value : Type} (id : Int16) (codec : Codec P Value)
    (member : Member Object (Slot Value)) (old object : Object) :
    overlay old object (slot id codec member) =
      member.put ((member.get old).onto codec (member.get object)) old := by
  change (if (member.get object).isset then _ else old) = _
  rw [Slot.onto]
  cases (member.get object).isset with
  | true => rfl
  | false => exact (member.put_get old).symm

/-- The members do not share what they store. -/
def Apart (first second : Field P Object) : Prop :=
  ∀ value other object,
    second.store other (first.store value object) =
      first.store value (second.store other object)

end Field

structure Record (P : Protocol) (Object : Type) where
  fields : List (Field P Object)
  nodup : (fields.map Field.id).Nodup
  apart : fields.Pairwise Field.Apart

namespace Record

variable (R : Record P Object)

/-! ## Writing and reading -/

def writeField (object : Object) (field : Field P Object) : Bytes :=
  if field.present object then
    P.write .fieldBegin (some (field.codec.type, field.id)) ++
      field.codec.write (field.get object)
  else []

def write (object : Object) : Bytes :=
  R.fields.flatMap (writeField object) ++ P.write .fieldBegin none

/-- The field that a number and a type on the wire stand for. -/
def select (type : TType) (id : Int16) : Option (Field P Object) :=
  R.fields.find? fun field => field.id = id && field.codec.type = type

/-- The loop of a `read`, with the object and the numbers of the fields so far. -/
def readFields (state : Object × List Int16) (wire : Bytes) :
    Except Failure ((Object × List Int16) × Bytes) :=
  match _hbegin : P.read .fieldBegin wire with
  | .error failure => .error failure
  | .ok (none, rest) => .ok (state, rest)
  | .ok (some (type, id), after) =>
      match R.select type id with
      | none =>
          match _hskip : P.skip type after with
          | .error failure => .error failure
          | .ok (_, behind) => readFields state behind
      | some field =>
          match _hvalue : field.codec.read (field.get state.1) after with
          | .error failure => .error failure
          | .ok (value, behind) =>
              readFields (field.put value state.1, id :: state.2) behind
termination_by wire.length
decreasing_by
  · exact Nat.lt_of_le_of_lt ((P.skip_consumes type).length_le _hskip)
      (P.read_progresses .fieldBegin _hbegin)
  · exact Nat.lt_of_le_of_lt ((field.codec.consumes _).length_le _hvalue)
      (P.read_progresses .fieldBegin _hbegin)

/-- All required fields are among those that came. -/
def complete (seen : List Int16) : Bool :=
  R.fields.all fun field => !field.required || seen.contains field.id

/-- The tests at the end of a `read`. -/
def finish (state : Object × List Int16) : Reader Object :=
  if R.complete state.2 then pure state.1
  else throw (.protocol .invalidData)

def read (object : Object) : Reader Object := do
  let state ← R.readFields (object, [])
  R.finish state

/-! ## One turn of the loop -/

variable {R}

theorem readFields_eq (state : Object × List Int16) :
    R.readFields state =
      P.read .fieldBegin >>= fun begun =>
        match begun with
        | none => pure state
        | some (type, id) =>
            match R.select type id with
            | none => P.skip type >>= fun _ => R.readFields state
            | some field =>
                field.codec.read (field.get state.1) >>= fun value =>
                  R.readFields (field.put value state.1, id :: state.2) := by
  funext wire
  rw [readFields]
  split
  case h_1 hbegin => rw [bind_error hbegin]
  case h_2 hbegin =>
    rw [bind_ok hbegin]
    rfl
  case h_3 hbegin =>
    rw [bind_ok hbegin]
    dsimp only
    split
    case h_1 hselect =>
      rw [hselect]
      dsimp only
      split
      case h_1 hskip => rw [bind_error hskip]
      case h_2 hskip => rw [bind_ok hskip]
    case h_2 hselect =>
      rw [hselect]
      dsimp only
      split
      case h_1 hvalue => rw [bind_error hvalue]
      case h_2 hvalue => rw [bind_ok hvalue]

theorem readFields_stop (state : Object × List Int16) :
    Reads (R.readFields state) (P.write .fieldBegin none) state := by
  have hstop : Datum.Fits .fieldBegin none := trivial
  rw [readFields_eq]
  exact (P.read_write hstop).bind_nil (Reads.pure state)

/-- A field of the table is read onto the object. -/
theorem readFields_known {state : Object × List Int16} {type : TType} {id : Int16}
    {field : Field P Object} {first rest : Bytes} {value : field.Value}
    (hselect : R.select type id = some field) (hknown : type.known = true)
    (hvalue : Reads (field.codec.read (field.get state.1)) first value) :
    R.readFields state (P.write .fieldBegin (some (type, id)) ++ (first ++ rest)) =
      R.readFields (field.put value state.1, id :: state.2) rest := by
  have hbegin : Datum.Fits .fieldBegin (some (type, id)) := hknown
  rw [readFields_eq, bind_ok (P.read_write hbegin (first ++ rest))]
  dsimp only
  rw [hselect]
  exact bind_ok (hvalue rest)

/-- A field that the table does not have is passed over. -/
theorem readFields_unknown {state : Object × List Int16} {type : TType} {id : Int16}
    {first rest : Bytes} (hselect : R.select type id = none)
    (hspells : Spells P.toEncoding (.value type) first) :
    R.readFields state (P.write .fieldBegin (some (type, id)) ++ (first ++ rest)) =
      R.readFields state rest := by
  have hbegin : Datum.Fits .fieldBegin (some (type, id)) := hspells.known
  refine (congrFun (readFields_eq state) _).trans ?_
  rw [bind_ok (P.read_write hbegin (first ++ rest))]
  dsimp only
  rw [hselect]
  exact bind_ok (P.skip_spelled hspells rest)

/-- The table finds each of its fields. -/
theorem select_field {field : Field P Object} (hmem : field ∈ R.fields) :
    R.select field.codec.type field.id = some field := by
  have hnodup := R.nodup
  unfold select
  revert hnodup hmem
  induction R.fields with
  | nil => intro hmem; cases hmem
  | cons head fields ih =>
      intro hmem hnodup
      rw [List.map_cons, List.nodup_cons] at hnodup
      rcases List.mem_cons.mp hmem with rfl | htail
      · rw [List.find?_cons_of_pos]
        simp
      · have hne : head.id ≠ field.id := by
          intro heq
          exact hnodup.1 (heq ▸ List.mem_map_of_mem htail)
        rw [List.find?_cons_of_neg, ih htail hnodup.2]
        simp [hne]

theorem complete_iff {seen : List Int16} :
    R.complete seen = true ↔
      ∀ field ∈ R.fields, field.required = true → field.id ∈ seen := by
  simp only [complete, List.all_eq_true, Bool.or_eq_true, Bool.not_eq_true',
    List.contains_iff_mem]
  refine forall₂_congr fun field _ => ?_
  cases field.required <;> simp

end Record

/-! ## The wires of a record -/

/-- A field of a record with a value. -/
abbrev Setting (P : Protocol) (Object : Type) := (field : Field P Object) × field.Value

namespace Setting

def store (object : Object) (setting : Setting P Object) : Object :=
  setting.1.store setting.2 object

def Commute (first second : Setting P Object) : Prop :=
  ∀ object, second.store (first.store object) = first.store (second.store object)

instance : Std.Symm (Commute : Setting P Object → Setting P Object → Prop) where
  symm _ _ hcomm object := (hcomm object).symm

end Setting

/-- One field on the wire. -/
inductive Chunk (P : Protocol) (Object : Type) where
  /-- A field of the table, with a wire of its value. -/
  | known (setting : Setting P Object) (wire : Bytes)
  /-- Any other field, with what spells its value. -/
  | unknown (type : TType) (id : Int16) (wire : Bytes)

namespace Chunk

def wire : Chunk P Object → Bytes
  | known setting wire =>
      P.write .fieldBegin (some (setting.1.codec.type, setting.1.id)) ++ wire
  | unknown type id wire => P.write .fieldBegin (some (type, id)) ++ wire

def setting : Chunk P Object → Option (Setting P Object)
  | known setting _ => some setting
  | unknown _ _ _ => none

/-- The field can stand in a record of the table. -/
def Legal (R : Record P Object) : Chunk P Object → Prop
  | known setting wire =>
      setting.1 ∈ R.fields ∧ setting.1.codec.Denotes setting.2 wire
  | unknown type id wire =>
      R.select type id = none ∧ Spells P.toEncoding (.value type) wire

end Chunk

namespace Record

variable {R : Record P Object}

/-- The values on the wire, in their order. -/
def settingsOf (chunks : List (Chunk P Object)) : List (Setting P Object) :=
  chunks.filterMap Chunk.setting

/-- The bytes of a record that is sent field by field. -/
def wireOf (chunks : List (Chunk P Object)) : Bytes :=
  chunks.flatMap Chunk.wire ++ P.write .fieldBegin none

theorem wireOf_cons (chunk : Chunk P Object) (chunks : List (Chunk P Object)) :
    wireOf (chunk :: chunks) = chunk.wire ++ wireOf chunks := by
  rw [wireOf, List.flatMap_cons, List.append_assoc, wireOf]

/-- A record is spelled whether its fields are known or not. -/
theorem spells_wireOf {chunks : List (Chunk P Object)}
    (hlegal : ∀ chunk ∈ chunks, chunk.Legal R) :
    Spells P.toEncoding .fields (wireOf chunks) := by
  induction chunks with
  | nil => exact Spells.stop
  | cons chunk chunks ih =>
      have hrest := ih fun chunk hmem => hlegal chunk (List.mem_cons_of_mem _ hmem)
      have hchunk := hlegal chunk List.mem_cons_self
      rw [wireOf_cons]
      cases chunk with
      | known setting wire =>
          rw [Chunk.wire, List.append_assoc]
          exact Spells.field (setting.1.codec.spells hchunk.2) hrest
      | unknown type id wire =>
          rw [Chunk.wire, List.append_assoc]
          exact Spells.field hchunk.2 hrest

/-- What the loop keeps of a value. -/
def keep (state : Object × List Int16) (setting : Setting P Object) :
    Object × List Int16 :=
  (setting.store state.1, setting.1.id :: state.2)

/-- The loop takes legal fields one by one, whatever follows them. -/
theorem readFields_append {chunks : List (Chunk P Object)}
    (hlegal : ∀ chunk ∈ chunks, chunk.Legal R) (state : Object × List Int16)
    (rest : Bytes) :
    R.readFields state (chunks.flatMap Chunk.wire ++ rest) =
      R.readFields ((settingsOf chunks).foldl keep state) rest := by
  induction chunks generalizing state with
  | nil => rfl
  | cons chunk chunks ih =>
      have hchunk := hlegal chunk List.mem_cons_self
      have hrest := fun state => ih (fun chunk hmem =>
        hlegal chunk (List.mem_cons_of_mem _ hmem)) state
      rw [List.flatMap_cons, List.append_assoc]
      cases chunk with
      | known setting wire =>
          have hvalue := setting.1.codec.reads (setting.1.get state.1) hchunk.2
          rw [Chunk.wire, List.append_assoc,
            readFields_known (select_field hchunk.1) setting.1.codec.known hvalue]
          exact hrest (keep state setting)
      | unknown type id wire =>
          rw [Chunk.wire, List.append_assoc, readFields_unknown hchunk.1 hchunk.2]
          exact hrest state

/-- The loop takes a record field by field. -/
theorem readFields_chunks {chunks : List (Chunk P Object)}
    (hlegal : ∀ chunk ∈ chunks, chunk.Legal R) (state : Object × List Int16) :
    Reads (R.readFields state) (wireOf chunks) ((settingsOf chunks).foldl keep state) := by
  intro rest
  rw [wireOf, List.append_assoc, readFields_append hlegal]
  exact readFields_stop _ rest

theorem foldl_keep (settings : List (Setting P Object)) (state : Object × List Int16) :
    settings.foldl keep state =
      (settings.foldl Setting.store state.1,
        (settings.map fun setting => setting.1.id).reverse ++ state.2) := by
  induction settings generalizing state with
  | nil => rfl
  | cons setting settings ih =>
      rw [List.foldl_cons, ih, List.foldl_cons, List.map_cons, List.reverse_cons,
        List.append_assoc]
      rfl

/-- All required fields of the table have a value. -/
def Complete (R : Record P Object) (settings : List (Setting P Object)) : Prop :=
  ∀ field ∈ R.fields, field.required = true →
    ∃ setting ∈ settings, setting.1.id = field.id

theorem complete_keep_iff {settings : List (Setting P Object)} {object : Object} :
    R.complete (settings.foldl keep (object, [])).2 = true ↔ R.Complete settings := by
  rw [complete_iff, foldl_keep]
  simp only [List.append_nil, List.mem_reverse, List.mem_map]
  rfl

/-- A record is read when all of its required fields come, in any order. -/
theorem read_reads {chunks : List (Chunk P Object)}
    (hlegal : ∀ chunk ∈ chunks, chunk.Legal R)
    (hcomplete : R.Complete (settingsOf chunks)) (object : Object) :
    Reads (R.read object) (wireOf chunks)
      ((settingsOf chunks).foldl Setting.store object) := by
  refine (readFields_chunks hlegal (object, [])).bind_nil ?_
  rw [finish, if_pos (complete_keep_iff.mpr hcomplete), foldl_keep]
  exact Reads.pure _

/-- A record without one of its required fields is refused. -/
theorem read_fails {chunks : List (Chunk P Object)}
    (hlegal : ∀ chunk ∈ chunks, chunk.Legal R)
    (hcomplete : ¬ R.Complete (settingsOf chunks)) (object : Object) :
    Fails (R.read object) (wireOf chunks) (.protocol .invalidData) := by
  refine Fails.bind_nil (readFields_chunks hlegal (object, [])) ?_
  rw [finish, if_neg fun hseen => hcomplete (complete_keep_iff.mp hseen)]
  exact Fails.throw _

/-- Among legal fields, the required ones alone decide whether a record is read. -/
theorem read_ok_iff {chunks : List (Chunk P Object)}
    (hlegal : ∀ chunk ∈ chunks, chunk.Legal R) (object : Object) (rest : Bytes) :
    (∃ result, R.read object (wireOf chunks ++ rest) = .ok (result, rest)) ↔
      R.Complete (settingsOf chunks) := by
  constructor
  · rintro ⟨result, hread⟩
    by_contra hcomplete
    rw [read_fails hlegal hcomplete object rest] at hread
    cases hread
  · intro hcomplete
    exact ⟨_, read_reads hlegal hcomplete object rest⟩

/-- A value that is refused ends the read of the record, whatever was to follow. -/
theorem read_fails_field {chunks : List (Chunk P Object)}
    (hlegal : ∀ chunk ∈ chunks, chunk.Legal R) {field : Field P Object}
    (hmem : field ∈ R.fields) {bad : Bytes} {failure : Failure}
    (hbad : ∀ old, Fails (field.codec.read old) bad failure) (object : Object) :
    Fails (R.read object)
      (chunks.flatMap Chunk.wire ++
        (P.write .fieldBegin (some (field.codec.type, field.id)) ++ bad)) failure := by
  intro rest
  have hbegin : Datum.Fits .fieldBegin (some (field.codec.type, field.id)) :=
    field.codec.known
  refine bind_error ?_
  rw [List.append_assoc, List.append_assoc, readFields_append hlegal, readFields_eq,
    bind_ok (P.read_write hbegin (bad ++ rest))]
  dsimp only
  rw [select_field hmem]
  exact bind_error (hbad _ rest)

theorem readFields_consumes (state : Object × List Int16) :
    Consumes (R.readFields state) := by
  intro wire
  induction hlength : wire.length using Nat.strongRecOn generalizing state wire with
  | _ length ih =>
      subst hlength
      rw [readFields_eq]
      refine (P.read_consumes .fieldBegin wire).bind fun begun after hbegin => ?_
      have hafter := P.read_progresses .fieldBegin hbegin
      cases begun with
      | none => exact Consumes.pure state after
      | some begun =>
          obtain ⟨type, id⟩ := begun
          dsimp only
          cases R.select type id with
          | none =>
              refine (P.skip_consumes type after).bind fun _ behind hskip => ?_
              have hbehind := (P.skip_consumes type).length_le hskip
              exact ih _ (Nat.lt_of_le_of_lt hbehind hafter) state behind rfl
          | some field =>
              refine (field.codec.consumes _ after).bind fun value behind hvalue => ?_
              have hbehind := (field.codec.consumes _).length_le hvalue
              exact ih _ (Nat.lt_of_le_of_lt hbehind hafter) _ behind rfl

theorem read_consumes (old : Object) : Consumes (R.read old) := by
  refine (readFields_consumes (old, [])).bind fun state => ?_
  unfold finish
  split
  case isTrue => exact Consumes.pure _
  case isFalse => exact Consumes.throw _

/-- A record ends with a stop, so that nothing is read of an empty wire. -/
theorem read_nil (old : Object) (outcome : Object × Bytes) : R.read old [] ≠ .ok outcome := by
  intro hread
  cases hfields : R.readFields (old, []) [] with
  | error failure =>
      rw [read, bind_error hfields] at hread
      cases hread
  | ok result =>
      rw [readFields_eq] at hfields
      exact (P.read_progresses .fieldBegin).bind_nil_ne_ok _ hfields

/-! ## The values of an object -/

/-- The fields that writing emits, with their values. -/
def settings (R : Record P Object) (object : Object) : List (Setting P Object) :=
  (R.fields.filter fun field => field.present object).map fun field =>
    ⟨field, field.get object⟩

/-- An object with what another has in the fields that are set. -/
def overlay (R : Record P Object) (old object : Object) : Object :=
  (R.settings object).foldl Setting.store old

theorem overlay_eq_foldl (old object : Object) :
    R.overlay old object = R.fields.foldl (fun old => Field.overlay old object) old := by
  rw [overlay, settings]
  induction R.fields generalizing old with
  | nil => rfl
  | cons field fields ih =>
      rw [List.foldl_cons, List.filter_cons, Field.overlay]
      cases field.present object with
      | true => exact ih _
      | false => exact ih _

/-- All that writing emits can be read back. -/
def Fits (R : Record P Object) (object : Object) : Prop :=
  ∀ field ∈ R.fields, field.present object = true → field.codec.Fits (field.get object)

/-- The values of the object, each once and in any order, between unknown fields. -/
def Denotes (R : Record P Object) (object : Object) (wire : Bytes) : Prop :=
  ∃ chunks : List (Chunk P Object), (∀ chunk ∈ chunks, chunk.Legal R) ∧
    (settingsOf chunks).Perm (R.settings object) ∧ wire = wireOf chunks

theorem mem_settings {object : Object} {setting : Setting P Object} :
    setting ∈ R.settings object ↔
      ∃ field ∈ R.fields, field.present object = true ∧
        ⟨field, field.get object⟩ = setting := by
  simp only [settings, List.mem_map, List.mem_filter, and_assoc]

theorem settings_complete (object : Object) : R.Complete (R.settings object) := by
  intro field hmem hrequired
  have hpresent := field.present_of_required hrequired object
  exact ⟨_, mem_settings.mpr ⟨field, hmem, hpresent, rfl⟩, rfl⟩

/-- The values of an object can be stored in any order. -/
theorem foldl_store_perm {object : Object} {settings : List (Setting P Object)}
    (hperm : settings.Perm (R.settings object)) (old : Object) :
    settings.foldl Setting.store old = R.overlay old object := by
  have hpairwise : (R.settings object).Pairwise Setting.Commute := by
    refine List.pairwise_map.mpr (List.Pairwise.filter _ ?_)
    exact R.apart.imp fun hapart => hapart _ _
  have hcomm : ∀ first ∈ R.settings object, ∀ second ∈ R.settings object,
      Setting.Commute first second :=
    fun first hfirst second hsecond =>
      hpairwise.forall_of_forall (fun _ _ _ => rfl) hfirst hsecond
  exact (hperm.symm.foldl_eq' (fun first hfirst second hsecond old =>
    hcomm first hfirst second hsecond old) old).symm

/-- Any wire of a record is read as the record. -/
theorem reads_of_denotes {object : Object} {wire : Bytes} (hdenotes : R.Denotes object wire)
    (old : Object) : Reads (R.read old) wire (R.overlay old object) := by
  obtain ⟨chunks, hlegal, hperm, rfl⟩ := hdenotes
  rw [← foldl_store_perm hperm old]
  refine read_reads hlegal (fun field hmem hrequired => ?_) old
  obtain ⟨setting, hsetting, hid⟩ := settings_complete object field hmem hrequired
  exact ⟨setting, hperm.mem_iff.mpr hsetting, hid⟩

/-! ## What is written -/

/-- The chunk that writing emits for a value. -/
def emit (setting : Setting P Object) : Chunk P Object :=
  .known setting (setting.1.codec.write setting.2)

theorem write_eq_wireOf (object : Object) :
    R.write object = wireOf ((R.settings object).map emit) := by
  rw [write, wireOf, settings]
  congr 1
  induction R.fields with
  | nil => rfl
  | cons field fields ih =>
      rw [List.flatMap_cons, ih, writeField, List.filter_cons]
      cases field.present object with
      | true => rfl
      | false => rfl

theorem settingsOf_map_emit (settings : List (Setting P Object)) :
    settingsOf (settings.map emit) = settings := by
  induction settings with
  | nil => rfl
  | cons setting settings ih => exact congrArg (setting :: ·) ih

theorem write_denotes {object : Object} (hfits : R.Fits object) :
    R.Denotes object (R.write object) := by
  refine ⟨(R.settings object).map emit, ?_, ?_, write_eq_wireOf object⟩
  · intro chunk hmem
    obtain ⟨setting, hsetting, rfl⟩ := List.mem_map.mp hmem
    obtain ⟨field, hfield, hpresent, rfl⟩ := mem_settings.mp hsetting
    exact ⟨hfield, field.codec.write_denotes (hfits field hfield hpresent)⟩
  · rw [settingsOf_map_emit]

/-- A record as the value of a field. -/
def codec (R : Record P Object) : Codec P Object where
  type := .struct
  write := R.write
  read := R.read
  overlay := R.overlay
  Fits := R.Fits
  Denotes := R.Denotes
  known := rfl
  reads old _ _ hdenotes := reads_of_denotes hdenotes old
  spells := by
    rintro object wire ⟨chunks, hlegal, -, rfl⟩
    exact Spells.struct (spells_wireOf hlegal)
  write_denotes := write_denotes
  consumes := read_consumes

end Record

end PdoCassandra.Foundation.Wire
