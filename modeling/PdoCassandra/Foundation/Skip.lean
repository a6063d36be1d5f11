import PdoCassandra.Foundation.Wire

/-!
# Values that are passed over

A reader that does not know what a value means passes over it by its type.  What it
passes over is a sequence of data, in the order of the parts of the value, so that it
takes the value as a whole and nothing behind it.
-/

namespace PdoCassandra.Foundation.Wire

open PdoCassandra.Foundation.CString

/-! ## What spells a value -/

/-- A value, or a part of a compound value. -/
inductive Form where
  | value (type : TType)
  /-- The fields of a struct, up to the stop. -/
  | fields
  | values (type : TType) (count : Nat)
  | entries (key value : TType) (count : Nat)

/-- The bytes spell a value of a type, without regard to what the value is. -/
inductive Spells (E : Encoding) : Form → Bytes → Prop where
  | datum {datum : Datum} {type : TType} {value : datum.Value}
      (htype : datum.type = some type) (hfits : datum.Fits value) :
      Spells E (.value type) (E.write datum value)
  | struct {wire : Bytes} (hfields : Spells E .fields wire) :
      Spells E (.value .struct) wire
  | list {type : TType} {size : UInt32} {wire : Bytes}
      (hfits : Datum.Fits .listBegin (type, size))
      (hvalues : Spells E (.values type size.toNat) wire) :
      Spells E (.value .list) (E.write .listBegin (type, size) ++ wire)
  | set {type : TType} {size : UInt32} {wire : Bytes}
      (hfits : Datum.Fits .setBegin (type, size))
      (hvalues : Spells E (.values type size.toNat) wire) :
      Spells E (.value .set) (E.write .setBegin (type, size) ++ wire)
  | map {key value : TType} {size : UInt32} {wire : Bytes}
      (hfits : Datum.Fits .mapBegin (key, value, size))
      (hentries : Spells E (.entries key value size.toNat) wire) :
      Spells E (.value .map) (E.write .mapBegin (key, value, size) ++ wire)
  | stop : Spells E .fields (E.write .fieldBegin none)
  | field {type : TType} {id : Int16} {first rest : Bytes}
      (hvalue : Spells E (.value type) first) (hfields : Spells E .fields rest) :
      Spells E .fields (E.write .fieldBegin (some (type, id)) ++ (first ++ rest))
  | noValues {type : TType} : Spells E (.values type 0) []
  | moreValues {type : TType} {count : Nat} {first rest : Bytes}
      (hvalue : Spells E (.value type) first)
      (hvalues : Spells E (.values type count) rest) :
      Spells E (.values type (count + 1)) (first ++ rest)
  | noEntries {key value : TType} : Spells E (.entries key value 0) []
  | moreEntries {key value : TType} {count : Nat} {first second rest : Bytes}
      (hkey : Spells E (.value key) first) (hvalue : Spells E (.value value) second)
      (hentries : Spells E (.entries key value count) rest) :
      Spells E (.entries key value (count + 1)) (first ++ (second ++ rest))

/-- Only values of the known types are spelled. -/
theorem Spells.known {E : Encoding} {type : TType} {wire : Bytes}
    (hspells : Spells E (.value type) wire) : type.known = true := by
  cases hspells with
  | datum htype => exact Datum.known_of_type htype
  | struct | list | set | map => rfl

/-! ## Passing over a value -/

/-- The order in which the parts of a value are passed over without taking bytes. -/
def Form.rank : Form → Nat
  | .fields => 0
  | .value _ => 1
  | .values _ count | .entries _ _ count => count + 2

namespace Encoding

variable (E : Encoding)

/-- Read a datum and keep that it took something. -/
def take (datum : Datum) (wire : Bytes) :
    Except Failure { out : datum.Value × Bytes // out.2.length < wire.length } :=
  match hread : E.read datum wire with
  | .error failure => .error failure
  | .ok out => .ok ⟨out, E.read_progresses datum hread⟩

/-- Pass over what a form spells; a type that is not known spells nothing. -/
def pass : (form : Form) → (wire : Bytes) →
    Except Failure { rest : Bytes // rest.length ≤ wire.length }
  | .value type, wire =>
      match type with
      | .struct => pass .fields wire
      | .list => do
          let ⟨((type, size), after), hafter⟩ ← E.take .listBegin wire
          let ⟨rest, hrest⟩ ← pass (.values type size.toNat) after
          .ok ⟨rest, Nat.le_of_lt (Nat.lt_of_le_of_lt hrest hafter)⟩
      | .set => do
          let ⟨((type, size), after), hafter⟩ ← E.take .setBegin wire
          let ⟨rest, hrest⟩ ← pass (.values type size.toNat) after
          .ok ⟨rest, Nat.le_of_lt (Nat.lt_of_le_of_lt hrest hafter)⟩
      | .map => do
          let ⟨((key, value, size), after), hafter⟩ ← E.take .mapBegin wire
          let ⟨rest, hrest⟩ ← pass (.entries key value size.toNat) after
          .ok ⟨rest, Nat.le_of_lt (Nat.lt_of_le_of_lt hrest hafter)⟩
      | type =>
          match Datum.ofType type with
          | none => .ok ⟨wire, Nat.le_refl _⟩
          | some datum => do
              let ⟨(_, rest), hrest⟩ ← E.take datum wire
              .ok ⟨rest, Nat.le_of_lt hrest⟩
  | .fields, wire => do
      let ⟨(field, after), hafter⟩ ← E.take .fieldBegin wire
      match field with
      | none => .ok ⟨after, Nat.le_of_lt hafter⟩
      | some (type, _) =>
          let ⟨behind, hbehind⟩ ← pass (.value type) after
          let ⟨rest, hrest⟩ ← pass .fields behind
          .ok ⟨rest, Nat.le_of_lt (Nat.lt_of_le_of_lt (Nat.le_trans hrest hbehind) hafter)⟩
  | .values _ 0, wire => .ok ⟨wire, Nat.le_refl _⟩
  | .values type (count + 1), wire => do
      let ⟨behind, hbehind⟩ ← pass (.value type) wire
      let ⟨rest, hrest⟩ ← pass (.values type count) behind
      .ok ⟨rest, Nat.le_trans hrest hbehind⟩
  | .entries _ _ 0, wire => .ok ⟨wire, Nat.le_refl _⟩
  | .entries key value (count + 1), wire => do
      let ⟨after, hafter⟩ ← pass (.value key) wire
      let ⟨behind, hbehind⟩ ← pass (.value value) after
      let ⟨rest, hrest⟩ ← pass (.entries key value count) behind
      .ok ⟨rest, Nat.le_trans hrest (Nat.le_trans hbehind hafter)⟩
termination_by form wire => (wire.length, form.rank)
decreasing_by
  all_goals simp_wf
  all_goals try dsimp only at hafter
  all_goals simp only [Form.rank, Prod.lex_def, true_and]
  all_goals omega

/-- Pass over what a form spells. -/
def passer (form : Form) : Reader Unit := fun wire =>
  (E.pass form wire).map fun rest => ((), rest.val)

/-- `skip`, by what passes over a value. -/
def skip (type : TType) : Reader Unit := E.passer (.value type)

/-! ### What passes over a form, in terms of its parts -/

theorem take_ok {datum : Datum} {wire : Bytes} {out : datum.Value × Bytes}
    (hread : E.read datum wire = .ok out) :
    E.take datum wire = .ok ⟨out, E.read_progresses datum hread⟩ := by
  unfold take
  split
  case h_1 failure herror =>
    rw [hread] at herror
    cases herror
  case h_2 found hfound =>
    obtain rfl : found = out := Except.ok.inj (hfound.symm.trans hread)
    rfl

theorem take_error {datum : Datum} {wire : Bytes} {failure : Failure}
    (hread : E.read datum wire = .error failure) :
    E.take datum wire = .error failure := by
  unfold take
  split
  case h_1 found hfound => exact congrArg Except.error (Except.error.inj (hfound.symm.trans hread))
  case h_2 found hfound =>
    rw [hread] at hfound
    cases hfound

/-- The last part of a form. -/
theorem passer_last {form : Form} {wire : Bytes} {length : Nat}
    {grow : { rest : Bytes // rest.length ≤ wire.length } →
      { rest : Bytes // rest.length ≤ length }} (hgrow : ∀ rest, (grow rest).val = rest.val) :
    (E.pass form wire >>= fun rest => Except.ok (grow rest)).map (fun rest => ((), rest.val)) =
      E.passer form wire := by
  rw [passer]
  cases E.pass form wire with
  | error failure => rfl
  | ok rest => exact congrArg (fun rest => Except.ok ((), rest)) (hgrow rest)

theorem passer_struct : E.passer (.value .struct) = E.passer .fields := by
  funext wire
  rw [passer, passer, pass]

theorem passer_list : E.passer (.value .list) =
    E.read .listBegin >>= fun begun => E.passer (.values begun.1 begun.2.toNat) := by
  funext wire
  rw [passer, pass]
  cases hread : E.read .listBegin wire with
  | error failure =>
      rw [take_error E hread, bind_error hread]
      rfl
  | ok out =>
      rw [take_ok E hread, bind_ok hread]
      exact passer_last E fun _ => rfl

theorem passer_set : E.passer (.value .set) =
    E.read .setBegin >>= fun begun => E.passer (.values begun.1 begun.2.toNat) := by
  funext wire
  rw [passer, pass]
  cases hread : E.read .setBegin wire with
  | error failure =>
      rw [take_error E hread, bind_error hread]
      rfl
  | ok out =>
      rw [take_ok E hread, bind_ok hread]
      exact passer_last E fun _ => rfl

theorem passer_map : E.passer (.value .map) =
    E.read .mapBegin >>= fun begun => E.passer (.entries begun.1 begun.2.1 begun.2.2.toNat) := by
  funext wire
  rw [passer, pass]
  cases hread : E.read .mapBegin wire with
  | error failure =>
      rw [take_error E hread, bind_error hread]
      rfl
  | ok out =>
      rw [take_ok E hread, bind_ok hread]
      exact passer_last E fun _ => rfl

/-- The types of a single datum, and those that are not known. -/
theorem passer_single {type : TType} (hstruct : type = .struct → False)
    (hlist : type = .list → False) (hset : type = .set → False) (hmap : type = .map → False) :
    E.passer (.value type) =
      match Datum.ofType type with
      | none => pure ()
      | some datum => E.read datum >>= fun _ => pure () := by
  funext wire
  rw [passer, pass.eq_5 E wire type hstruct hlist hset hmap]
  cases Datum.ofType type with
  | none => rfl
  | some datum =>
      cases hread : E.read datum wire with
      | error failure =>
          simp only [take_error E hread, bind_error hread]
          rfl
      | ok out =>
          simp only [take_ok E hread, bind_ok hread]
          rfl

/-- One part of a form and then another. -/
theorem passer_two {first second : Form} {wire : Bytes} {length : Nat}
    {grow : (behind : { rest : Bytes // rest.length ≤ wire.length }) →
      { rest : Bytes // rest.length ≤ behind.val.length } →
      { rest : Bytes // rest.length ≤ length }}
    (hgrow : ∀ behind rest, (grow behind rest).val = rest.val) :
    (E.pass first wire >>= fun behind => E.pass second behind.val >>= fun rest =>
        Except.ok (grow behind rest)).map (fun rest => ((), rest.val)) =
      (E.passer first >>= fun _ => E.passer second) wire := by
  cases hfirst : E.pass first wire with
  | error failure =>
      have hpasser : E.passer first wire = .error failure := by
        rw [passer, hfirst]
        rfl
      rw [bind_error hpasser]
      rfl
  | ok behind =>
      have hpasser : E.passer first wire = .ok ((), behind.val) := by
        rw [passer, hfirst]
        rfl
      rw [bind_ok hpasser]
      exact passer_last E (hgrow behind)

theorem passer_fields : E.passer .fields =
    E.read .fieldBegin >>= fun field =>
      match field with
      | none => pure ()
      | some (type, _) => E.passer (.value type) >>= fun _ => E.passer .fields := by
  funext wire
  rw [passer, pass]
  cases hread : E.read .fieldBegin wire with
  | error failure =>
      rw [take_error E hread, bind_error hread]
      rfl
  | ok out =>
      obtain ⟨field, after⟩ := out
      rw [take_ok E hread, bind_ok hread]
      cases field with
      | none => rfl
      | some field => exact passer_two E fun _ _ => rfl

theorem passer_noValues (type : TType) : E.passer (.values type 0) = pure () := by
  funext wire
  rw [passer, pass]
  rfl

theorem passer_moreValues (type : TType) (count : Nat) :
    E.passer (.values type (count + 1)) =
      E.passer (.value type) >>= fun _ => E.passer (.values type count) := by
  funext wire
  rw [passer, pass]
  exact passer_two E fun _ _ => rfl

theorem passer_noEntries (key value : TType) : E.passer (.entries key value 0) = pure () := by
  funext wire
  rw [passer, pass]
  rfl

theorem passer_moreEntries (key value : TType) (count : Nat) :
    E.passer (.entries key value (count + 1)) =
      E.passer (.value key) >>= fun _ =>
        E.passer (.value value) >>= fun _ => E.passer (.entries key value count) := by
  funext wire
  cases hkey : E.pass (.value key) wire with
  | error failure =>
      have hpasser : E.passer (.value key) wire = .error failure := by
        rw [passer, hkey]
        rfl
      rw [bind_error hpasser, passer, pass, hkey]
      rfl
  | ok after =>
      have hpasser : E.passer (.value key) wire = .ok ((), after.val) := by
        rw [passer, hkey]
        rfl
      rw [bind_ok hpasser, passer, pass, hkey]
      exact passer_two E fun _ _ => rfl

/-! ### What spells a form is what is passed over -/

variable {E}

/-- What spells a form is passed over as a whole. -/
theorem passer_spelled {form : Form} {wire : Bytes} (hspells : Spells E form wire) :
    Reads (E.passer form) wire () := by
  induction hspells with
  | @datum datum type value htype hfits =>
      have hpasser : E.passer (.value type) = E.read datum >>= fun _ => pure () := by
        rw [passer_single, Datum.ofType_of_type htype]
        all_goals
          rintro rfl
          cases datum <;> cases htype
      rw [hpasser]
      exact (E.read_write hfits).bind_nil (Reads.pure ())
  | struct hfields ih => rwa [passer_struct]
  | list hfits hvalues ih =>
      rw [passer_list]
      exact (E.read_write hfits).bind ih
  | set hfits hvalues ih =>
      rw [passer_set]
      exact (E.read_write hfits).bind ih
  | map hfits hvalues ih =>
      rw [passer_map]
      exact (E.read_write hfits).bind ih
  | stop =>
      have hfits : Datum.Fits .fieldBegin none := trivial
      rw [passer_fields]
      exact (E.read_write hfits).bind_nil (Reads.pure ())
  | @field type id first rest hvalue hfields ihvalue ihfields =>
      have hfits : Datum.Fits .fieldBegin (some (type, id)) := hvalue.known
      rw [passer_fields]
      exact (E.read_write hfits).bind (ihvalue.bind ihfields)
  | noValues =>
      rw [passer_noValues]
      exact Reads.pure ()
  | moreValues hvalue hvalues ihvalue ihvalues =>
      rw [passer_moreValues]
      exact ihvalue.bind ihvalues
  | noEntries =>
      rw [passer_noEntries]
      exact Reads.pure ()
  | moreEntries hkey hvalue hentries ihkey ihvalue ihentries =>
      rw [passer_moreEntries]
      exact ihkey.bind (ihvalue.bind ihentries)

theorem passer_length_le {form : Form} {wire rest : Bytes} {value : Unit}
    (hpass : E.passer form wire = .ok (value, rest)) : rest.length ≤ wire.length := by
  rw [passer] at hpass
  cases hout : E.pass form wire with
  | error failure =>
      rw [hout] at hpass
      cases hpass
  | ok out =>
      rw [hout] at hpass
      cases hpass
      exact out.property

/-- Passing over a form takes the first bytes of the wire, as each of its parts does. -/
theorem passer_consumes (form : Form) : Consumes (E.passer form) := by
  intro wire
  induction form, wire using pass.induct with
  | case1 wire ih => rwa [passer_struct]
  | case2 wire ih =>
      rw [passer_list]
      exact (E.read_consumes .listBegin wire).bind fun begun after hread =>
        ih begun.1 begun.2 after (E.read_progresses .listBegin hread)
  | case3 wire ih =>
      rw [passer_set]
      exact (E.read_consumes .setBegin wire).bind fun begun after hread =>
        ih begun.1 begun.2 after (E.read_progresses .setBegin hread)
  | case4 wire ih =>
      rw [passer_map]
      exact (E.read_consumes .mapBegin wire).bind fun begun after hread =>
        ih begun.1 begun.2.1 begun.2.2 after (E.read_progresses .mapBegin hread)
  | case5 wire type hstruct hlist hset hmap hnone =>
      rw [passer_single E hstruct hlist hset hmap, hnone]
      exact Consumes.pure () wire
  | case6 wire type hstruct hlist hset hmap datum hsome =>
      rw [passer_single E hstruct hlist hset hmap, hsome]
      exact (E.read_consumes datum).bind (fun _ => Consumes.pure ()) wire
  | case7 wire ihvalue ihfields =>
      rw [passer_fields]
      refine (E.read_consumes .fieldBegin wire).bind fun field after hread => ?_
      have hafter := E.read_progresses .fieldBegin hread
      cases field with
      | none => exact Consumes.pure () after
      | some field =>
          refine (ihvalue none after hafter field.1).bind fun _ behind hpass => ?_
          exact ihfields none after hafter behind (passer_length_le hpass)
  | case8 type wire =>
      rw [passer_noValues]
      exact Consumes.pure () wire
  | case9 type count wire ihvalue ihvalues =>
      rw [passer_moreValues]
      exact ihvalue.bind fun _ behind hpass => ihvalues behind (passer_length_le hpass)
  | case10 key value wire =>
      rw [passer_noEntries]
      exact Consumes.pure () wire
  | case11 key value count wire ihkey ihvalue ihentries =>
      rw [passer_moreEntries]
      refine ihkey.bind fun _ after hkey => ?_
      have hafter := passer_length_le hkey
      refine (ihvalue after hafter).bind fun _ behind hvalue => ?_
      exact ihentries after hafter behind (passer_length_le hvalue)

end Encoding

/-! ## Protocols -/

/-- A protocol passes over a value by its type. -/
structure Protocol extends Encoding where
  skip : TType → Reader Unit
  skip_spelled : ∀ {type wire}, Spells toEncoding (.value type) wire →
    Reads (skip type) wire ()
  skip_consumes : ∀ type, Consumes (skip type)

/-- The protocol that passes over a value by reading its data. -/
def Encoding.protocol (E : Encoding) : Protocol where
  toEncoding := E
  skip := E.skip
  skip_spelled := Encoding.passer_spelled
  skip_consumes type := Encoding.passer_consumes (.value type)

end PdoCassandra.Foundation.Wire
