import PdoCassandra.Foundation.BinaryProtocol
import PdoCassandra.Thrift.Records

/-!
# What the records accept

A record that is written is read back; so is any wire with the same values, in
whatever order they stand and whatever unknown fields stand between them, at every
depth.  Only the required fields are asked for, and a record that lacks one is
refused with all that encloses it.
-/

namespace PdoCassandra.Properties.RecordFormat

open PdoCassandra.Foundation
open PdoCassandra.Foundation.CString
open PdoCassandra.Foundation.Wire
open PdoCassandra.Thrift.Records

variable (P : Protocol)

/-! ## Round trips -/

/-- What a reader makes of a record, from a wire that denotes it. -/
theorem reads_received {Object : Type} {R : Record P Object} {fresh object : Object}
    {received : Object → Object} (hoverlay : R.overlay fresh object = received object)
    {wire : Bytes} (hdenotes : R.Denotes object wire) :
    Reads (R.read fresh) wire (received object) :=
  hoverlay ▸ Record.reads_of_denotes hdenotes fresh

theorem authenticationRequest_overlay (request : AuthenticationRequest) :
    (AuthenticationRequest.record P).overlay {} request = request := by
  rw [Record.overlay_eq_foldl]
  rfl

/-- Each record that the driver sends or receives is read back as it was written. -/
theorem written_record_read :
    (∀ request, (AuthenticationRequest.record P).Fits request →
      Reads ((AuthenticationRequest.record P).read {})
        ((AuthenticationRequest.record P).write request) request) ∧
    (∀ ksDef, (KsDef.record P).Fits ksDef →
      Reads ((KsDef.record P).read {}) ((KsDef.record P).write ksDef) ksDef.received) ∧
    ∀ result, (CqlResult.record P).Fits result →
      Reads ((CqlResult.record P).read {}) ((CqlResult.record P).write result)
        result.received := by
  refine ⟨fun request hfits => ?_, fun ksDef hfits => ?_, fun result hfits => ?_⟩
  · have hreads := Record.reads_of_denotes (Record.write_denotes hfits) {}
    rwa [authenticationRequest_overlay] at hreads
  · exact reads_received P (KsDef.overlay_fresh P ksDef) (Record.write_denotes hfits)
  · exact reads_received P (CqlResult.overlay_fresh P result) (Record.write_denotes hfits)

/-- A result of one row without columns, and no number. -/
def smallResult : CqlResult := { type := 1, rows := ⟨[{ key := [107] }], true⟩ }

theorem smallRow_fits : (CqlRow.record P).Fits { key := [107] } := by
  intro field hmem _
  rcases List.mem_cons.mp hmem with rfl | hmem
  · exact Datum.one_lt_sizeLimit
  · rw [List.mem_singleton.mp hmem]
    exact ⟨Datum.zero_lt_sizeLimit, fun _ hnone => (List.not_mem_nil hnone).elim⟩

theorem smallResult_fits : (CqlResult.record P).Fits smallResult := by
  intro field hmem hpresent
  rcases List.mem_cons.mp hmem with rfl | hmem
  · trivial
  · rcases List.mem_cons.mp hmem with rfl | hmem
    · refine ⟨Datum.one_lt_sizeLimit, fun row hrow => ?_⟩
      rw [List.mem_singleton.mp hrow]
      exact smallRow_fits P
    · rw [List.mem_singleton.mp hmem] at hpresent
      cases hpresent

theorem written_record_read_small :
    (CqlResult.record BinaryProtocol.protocol).Fits smallResult ∧
      Reads ((CqlResult.record BinaryProtocol.protocol).read {})
        ((CqlResult.record BinaryProtocol.protocol).write smallResult)
        smallResult.received :=
  ⟨smallResult_fits _, (written_record_read _).2.2 smallResult (smallResult_fits _)⟩

/-! ## Other wires of the same record -/

/-- The fields of a result and of a schema may come in any order, between others. -/
theorem reordered_record_read :
    (∀ ksDef wire, (KsDef.record P).Denotes ksDef wire →
      Reads ((KsDef.record P).read {}) wire ksDef.received) ∧
    ∀ result wire, (CqlResult.record P).Denotes result wire →
      Reads ((CqlResult.record P).read {}) wire result.received :=
  ⟨fun ksDef _ hdenotes => reads_received P (KsDef.overlay_fresh P ksDef) hdenotes,
    fun result _ hdenotes => reads_received P (CqlResult.overlay_fresh P result) hdenotes⟩

theorem put_num (r : CqlResult) : { r with num := r.num } = r := rfl

theorem put_type (r : CqlResult) : { r with type := r.type } = r := rfl

/-- A void result whose number comes first, behind a field that the table does not have. -/
def oddWire (P : Protocol) : Bytes :=
  Record.wireOf
    ([.unknown .bool 9 (P.write .bool true),
      .known ⟨.slot 3 (.i32 P) ⟨CqlResult.num, fun num r => { r with num }, put_num⟩,
        (5 : Int32)⟩ (P.write .i32 5),
      .known ⟨.always 1 (.i32 P) ⟨CqlResult.type, fun type r => { r with type }, put_type⟩,
        (2 : Int32)⟩ (P.write .i32 2)] : List (Chunk P CqlResult))

theorem oddWire_denotes :
    (CqlResult.record P).Denotes { type := 2, num := ⟨5, true⟩ } (oddWire P) := by
  refine ⟨_, ?_, ?_, rfl⟩
  · intro chunk hmem
    rcases List.mem_cons.mp hmem with rfl | hmem
    · exact ⟨rfl, Spells.datum rfl trivial⟩
    · rcases List.mem_cons.mp hmem with rfl | hmem
      · exact ⟨List.mem_cons_of_mem _ (List.mem_cons_of_mem _ List.mem_cons_self),
          trivial, rfl⟩
      · rw [List.mem_singleton.mp hmem]
        exact ⟨List.mem_cons_self, trivial, rfl⟩
  · exact List.Perm.swap _ _ []

theorem reordered_record_read_odd :
    Reads ((CqlResult.record BinaryProtocol.protocol).read {})
      (oddWire BinaryProtocol.protocol) { type := 2, num := ⟨5, true⟩ } :=
  (reordered_record_read _).2 _ _ (oddWire_denotes _)

/-! ## What is asked for -/

/-- A table asks for the fields of some numbers. -/
def Asks {Object : Type} (R : Record P Object) (ids : List Int16) : Prop :=
  ∀ (object : Object) {chunks : List (Chunk P Object)},
    (∀ chunk ∈ chunks, chunk.Legal R) → ∀ rest,
      ((∃ result, R.read object (Record.wireOf chunks ++ rest) = .ok (result, rest)) ↔
        ∀ id ∈ ids, ∃ setting ∈ Record.settingsOf chunks, setting.1.id = id) ∧
      ((∃ result, R.read object (Record.wireOf chunks ++ rest) = .ok (result, rest)) ∨
        R.read object (Record.wireOf chunks ++ rest) = .error (.protocol .invalidData))

theorem asks_required {Object : Type} (R : Record P Object) :
    Asks P R ((R.fields.filter Field.required).map Field.id) := by
  intro object chunks hlegal rest
  have hcomplete : R.Complete (Record.settingsOf chunks) ↔
      ∀ id ∈ (R.fields.filter Field.required).map Field.id,
        ∃ setting ∈ Record.settingsOf chunks, setting.1.id = id := by
    simp only [Record.Complete, List.forall_mem_map, List.mem_filter, and_imp]
  refine ⟨(Record.read_ok_iff hlegal object rest).trans hcomplete, ?_⟩
  rcases Classical.em (R.Complete (Record.settingsOf chunks)) with hall | hmissing
  · exact Or.inl ((Record.read_ok_iff hlegal object rest).mpr hall)
  · exact Or.inr (Record.read_fails hlegal hmissing object rest)

/-- The required fields, and no other, decide whether a record is read. -/
theorem record_asks :
    Asks P (Column.record P) [1] ∧ Asks P (CqlRow.record P) [1, 2] ∧
      Asks P (CqlResult.record P) [1] ∧ Asks P (ColumnDef.record P) [1, 2] ∧
      Asks P (CfDef.record P) [1, 2] ∧ Asks P (KsDef.record P) [1, 2, 5] ∧
      Asks P (WhyException.record P) [1] ∧ Asks P (EmptyException.record P) [] ∧
      Asks P (AuthenticationRequest.record P) [1] :=
  ⟨asks_required P _, asks_required P _, asks_required P _, asks_required P _,
    asks_required P _, asks_required P _, asks_required P _, asks_required P _,
    asks_required P _⟩

theorem record_asks_row :
    ¬ ∃ row, (CqlRow.record BinaryProtocol.protocol).read {}
      (Record.wireOf ([] : List (Chunk BinaryProtocol.protocol CqlRow)) ++ []) =
        .ok (row, []) := by
  intro hread
  have hall := ((record_asks BinaryProtocol.protocol).2.1 {}
    (fun _ hmem => (List.not_mem_nil hmem).elim) []).1.mp hread
  obtain ⟨setting, hsetting, -⟩ := hall 1 List.mem_cons_self
  exact List.not_mem_nil hsetting

/-! ## Refusal from within -/

section Refusal

variable {P}

/-- A row with a column that lacks its name. -/
def namelessRow (rowChunks : List (Chunk P CqlRow)) (columns : UInt32)
    (columnWires : List Bytes) (columnChunks : List (Chunk P Column)) : Bytes :=
  rowChunks.flatMap Chunk.wire ++
    (P.write .fieldBegin (some (.list, 2)) ++
      (P.write .listBegin (.struct, columns) ++
        (columnWires.flatten ++ Record.wireOf columnChunks)))

/-- A result with such a row behind others. -/
def namelessResult (chunks : List (Chunk P CqlResult)) (rows : UInt32)
    (rowWires : List Bytes) (row : Bytes) : Bytes :=
  chunks.flatMap Chunk.wire ++
    (P.write .fieldBegin (some (.list, 2)) ++
      (P.write .listBegin (.struct, rows) ++ (rowWires.flatten ++ row)))

theorem row_refused {rowChunks : List (Chunk P CqlRow)}
    (hrow : ∀ chunk ∈ rowChunks, chunk.Legal (CqlRow.record P)) {columns : List Column}
    {columnWires : List Bytes} {count : UInt32}
    (hcount : Datum.Fits .listBegin (.struct, count))
    (hcolumns : List.Forall₂ (Column.record P).Denotes columns columnWires)
    (hmore : columns.length < count.toNat) {columnChunks : List (Chunk P Column)}
    (hcolumn : ∀ chunk ∈ columnChunks, chunk.Legal (Column.record P))
    (hname : ∀ setting ∈ Record.settingsOf columnChunks, setting.1.id ≠ 1)
    (object : CqlRow) :
    Fails ((CqlRow.record P).read object)
      (namelessRow rowChunks count columnWires columnChunks) (.protocol .invalidData) := by
  have hmissing : ¬ (Column.record P).Complete (Record.settingsOf columnChunks) := by
    intro hcomplete
    obtain ⟨setting, hsetting, hid⟩ := hcomplete _ List.mem_cons_self rfl
    exact hname setting hsetting hid
  have hbad := fun old => Codec.list_fails (Column.record P).codec {} hcolumns
    (Record.read_fails hcolumn hmissing {}) hcount hmore old
  exact Record.read_fails_field hrow (List.mem_cons_of_mem _ List.mem_cons_self) hbad object

/-- One column without a name, anywhere in a result, and nothing of the result is read. -/
theorem nameless_column_refused {chunks : List (Chunk P CqlResult)}
    (hresult : ∀ chunk ∈ chunks, chunk.Legal (CqlResult.record P)) {rows : List CqlRow}
    {rowWires : List Bytes} {rowCount : UInt32}
    (hrowCount : Datum.Fits .listBegin (.struct, rowCount))
    (hrows : List.Forall₂ (CqlRow.record P).Denotes rows rowWires)
    (hmoreRows : rows.length < rowCount.toNat) {rowChunks : List (Chunk P CqlRow)}
    (hrow : ∀ chunk ∈ rowChunks, chunk.Legal (CqlRow.record P)) {columns : List Column}
    {columnWires : List Bytes} {count : UInt32}
    (hcount : Datum.Fits .listBegin (.struct, count))
    (hcolumns : List.Forall₂ (Column.record P).Denotes columns columnWires)
    (hmore : columns.length < count.toNat) {columnChunks : List (Chunk P Column)}
    (hcolumn : ∀ chunk ∈ columnChunks, chunk.Legal (Column.record P))
    (hname : ∀ setting ∈ Record.settingsOf columnChunks, setting.1.id ≠ 1)
    (object : CqlResult) :
    Fails ((CqlResult.record P).read object)
      (namelessResult chunks rowCount rowWires
        (namelessRow rowChunks count columnWires columnChunks))
      (.protocol .invalidData) := by
  have hbad := fun old => Codec.list_fails (CqlRow.record P).codec {} hrows
    (row_refused hrow hcount hcolumns hmore hcolumn hname {}) hrowCount hmoreRows old
  exact Record.read_fails_field hresult (List.mem_cons_of_mem _ List.mem_cons_self) hbad
    object

theorem nameless_column_refused_first :
    Fails ((CqlResult.record BinaryProtocol.protocol).read {})
      (namelessResult (P := BinaryProtocol.protocol) [] 1 []
        (namelessRow (P := BinaryProtocol.protocol) [] 1 [] []))
      (.protocol .invalidData) :=
  nameless_column_refused (fun _ hmem => (List.not_mem_nil hmem).elim)
    ⟨rfl, by decide⟩ List.Forall₂.nil (by decide)
    (fun _ hmem => (List.not_mem_nil hmem).elim) ⟨rfl, by decide⟩ List.Forall₂.nil
    (by decide) (fun _ hmem => (List.not_mem_nil hmem).elim)
    (fun _ hmem => (List.not_mem_nil hmem).elim) {}

end Refusal

end PdoCassandra.Properties.RecordFormat
