import PdoCassandra.Thrift.Session

/-!
# What the driver has of the records

The driver looks at a few members of a record, and never at the flags of its
`__isset`.  The `recv_` functions branch on those of the result struct alone, so
that the outcome of a call is a matter of what is left of it.
-/

namespace PdoCassandra.Thrift

open PdoCassandra.Foundation.CString
open PdoCassandra.Foundation.Rpc
open PdoCassandra.Foundation.Wire

/-! ## Records -/

namespace Records

def Column.view (c : Column) : Thrift.Column where
  name := c.name
  value := c.value.value

def CqlRow.view (r : CqlRow) : Thrift.CqlRow where
  columns := r.columns.map Column.view

/-- The `CqlResultType` of a number; any number is taken. -/
def resultType (code : Int32) : CqlResultType :=
  if code = 1 then .rows
  else if code = 2 then .void
  else if code = 3 then .int
  else .other code.toInt

def CqlResult.view (r : CqlResult) : Thrift.CqlResult where
  type := resultType r.type
  rows := r.rows.value.map CqlRow.view
  num := r.num.value.toInt

def ColumnDef.view (c : ColumnDef) : Thrift.ColumnDef where
  name := c.name
  validationClass := c.validationClass

def CfDef.view (c : CfDef) : Thrift.CfDef where
  name := c.name
  comparatorType := c.comparatorType.value
  columnMetadata := c.columnMetadata.value.map ColumnDef.view
  defaultValidationClass := c.defaultValidationClass.value
  keyValidationClass := c.keyValidationClass.value
  keyAlias := c.keyAlias.value

def KsDef.view (k : KsDef) : Thrift.KsDef where
  name := k.name
  cfDefs := k.cfDefs.map CfDef.view

end Records

/-! ## Result structs -/

namespace Rpc

def toOption {Value : Type} (slot : Slot Value) : Option Value :=
  if slot.isset then some slot.value else none

def LoginResult.view (r : LoginResult) : Thrift.LoginResult where
  authnx := (toOption r.authnx).map Records.WhyException.why
  authzx := (toOption r.authzx).map Records.WhyException.why

def SetKeyspaceResult.view (r : SetKeyspaceResult) : Thrift.SetKeyspaceResult where
  ire := (toOption r.ire).map Records.WhyException.why

def DescribeKeyspaceResult.view (r : DescribeKeyspaceResult) :
    Thrift.DescribeKeyspaceResult where
  success := (toOption r.success).map Records.KsDef.view
  nfe := r.nfe.isset
  ire := (toOption r.ire).map Records.WhyException.why

def DescribeVersionResult.view (r : DescribeVersionResult) :
    Thrift.DescribeVersionResult where
  success := toOption r.success

def ExecuteCqlQueryResult.view (r : ExecuteCqlQueryResult) :
    Thrift.ExecuteCqlQueryResult where
  success := (toOption r.success).map Records.CqlResult.view
  ire := (toOption r.ire).map Records.WhyException.why
  ue := r.ue.isset
  te := r.te.isset
  sde := r.sde.isset

/-! ## What comes back for a call -/

variable (R : Runtime)

/-- A reply that was read, as the message that it is to the driver. -/
def incoming {Result View : Type} (view : Result → View) : Reply Result → Incoming View
  | .result result => .message (view result)
  | .exception e => .exception (R.what e)

theorem recvLogin_incoming (reply : Reply LoginResult) :
    recvLogin (incoming R LoginResult.view reply) = outcomeOf R acceptLogin reply := by
  cases reply with
  | exception e => rfl
  | result result =>
      obtain ⟨⟨authnx, hasAuthnx⟩, ⟨authzx, hasAuthzx⟩⟩ := result
      cases hasAuthnx with
      | true => rfl
      | false => cases hasAuthzx <;> rfl

theorem recvSetKeyspace_incoming (reply : Reply SetKeyspaceResult) :
    recvSetKeyspace (incoming R SetKeyspaceResult.view reply) =
      outcomeOf R acceptSetKeyspace reply := by
  cases reply with
  | exception e => rfl
  | result result =>
      obtain ⟨⟨ire, hasIre⟩⟩ := result
      cases hasIre <;> rfl

theorem recvDescribeKeyspace_incoming (reply : Reply DescribeKeyspaceResult) :
    recvDescribeKeyspace (incoming R DescribeKeyspaceResult.view reply) =
      (outcomeOf R acceptDescribeKeyspace reply).map Records.KsDef.view := by
  cases reply with
  | exception e => rfl
  | result result =>
      obtain ⟨⟨success, hasSuccess⟩, ⟨nfe, hasNfe⟩, ⟨ire, hasIre⟩⟩ := result
      cases hasSuccess with
      | true => rfl
      | false =>
          cases hasNfe with
          | true => rfl
          | false => cases hasIre <;> rfl

theorem recvDescribeVersion_incoming (reply : Reply DescribeVersionResult) :
    recvDescribeVersion (incoming R DescribeVersionResult.view reply) =
      outcomeOf R acceptDescribeVersion reply := by
  cases reply with
  | exception e => rfl
  | result result =>
      obtain ⟨⟨success, hasSuccess⟩⟩ := result
      cases hasSuccess <;> rfl

theorem recvExecuteCqlQuery_incoming (reply : Reply ExecuteCqlQueryResult) :
    recvExecuteCqlQuery (incoming R ExecuteCqlQueryResult.view reply) =
      (outcomeOf R acceptExecuteCqlQuery reply).map Records.CqlResult.view := by
  cases reply with
  | exception e => rfl
  | result result =>
      obtain ⟨⟨success, hasSuccess⟩, ⟨ire, hasIre⟩, ⟨ue, hasUe⟩, ⟨te, hasTe⟩,
        ⟨sde, hasSde⟩⟩ := result
      cases hasSuccess with
      | true => rfl
      | false =>
          cases hasIre with
          | true => rfl
          | false =>
              cases hasUe with
              | true => rfl
              | false =>
                  cases hasTe with
                  | true => rfl
                  | false => cases hasSde <;> rfl

end Rpc

end PdoCassandra.Thrift
