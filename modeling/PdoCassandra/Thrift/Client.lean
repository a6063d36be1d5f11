import PdoCassandra.Thrift.Types

/-!
# The client calls of `Cassandra.cpp`

A call sends its arguments and hands what it reads back to its `recv_` function,
which alone decides between a return value and an exception.  The outcome of a
call is therefore given by the message that comes back.
-/

namespace PdoCassandra.Thrift

open PdoCassandra.Foundation.CString

/-! ## Messages -/

/-- What comes back for one call, with a result struct of type `Result`. -/
inductive Incoming (Result : Type) where
  /-- The transport raises while the call is sent or its reply is read. -/
  | transport (what : Bytes)
  /-- A message of type `T_EXCEPTION`. -/
  | exception (what : Bytes)
  | message (result : Result)
  deriving DecidableEq

structure LoginResult where
  authnx : Option Bytes := none
  authzx : Option Bytes := none
  deriving DecidableEq

structure SetKeyspaceResult where
  ire : Option Bytes := none
  deriving DecidableEq

structure DescribeKeyspaceResult where
  success : Option KsDef := none
  nfe : Bool := false
  ire : Option Bytes := none
  deriving DecidableEq

structure DescribeVersionResult where
  success : Option Bytes := none
  deriving DecidableEq

structure ExecuteCqlQueryResult where
  success : Option CqlResult := none
  ire : Option Bytes := none
  ue : Bool := false
  te : Bool := false
  sde : Bool := false
  deriving DecidableEq

/-! ## The `recv_` functions -/

/-- Read a message; `accept` looks at the flags of its result struct. -/
def recv {Result Value : Type} (accept : Result → Except TException Value) :
    Incoming Result → Except TException Value
  | .transport what => .error (.transport what)
  | .exception what => .error (.application what)
  | .message result => accept result

/-- The `MISSING_RESULT` exception at the end of a `recv_` function. -/
def missingResult (call : String) : TException :=
  .application (bytesOf (call ++ " failed: unknown result"))

def recvLogin : Incoming LoginResult → Except TException Unit :=
  recv fun result =>
    match result.authnx, result.authzx with
    | some why, _ => .error (.authentication why)
    | none, some why => .error (.authorization why)
    | none, none => .ok ()

def recvSetKeyspace : Incoming SetKeyspaceResult → Except TException Unit :=
  recv fun result =>
    match result.ire with
    | some why => .error (.invalidRequest why)
    | none => .ok ()

def recvDescribeKeyspace :
    Incoming DescribeKeyspaceResult → Except TException KsDef :=
  recv fun result =>
    match result.success with
    | some ksdef => .ok ksdef
    | none =>
        if result.nfe then .error .notFound
        else
          match result.ire with
          | some why => .error (.invalidRequest why)
          | none => .error (missingResult "describe_keyspace")

def recvDescribeVersion :
    Incoming DescribeVersionResult → Except TException Bytes :=
  recv fun result =>
    match result.success with
    | some version => .ok version
    | none => .error (missingResult "describe_version")

def recvExecuteCqlQuery :
    Incoming ExecuteCqlQueryResult → Except TException CqlResult :=
  recv fun result =>
    match result.success with
    | some value => .ok value
    | none =>
        match result.ire with
        | some why => .error (.invalidRequest why)
        | none =>
            if result.ue then .error .unavailable
            else if result.te then .error .timedOut
            else if result.sde then .error .schemaDisagreement
            else .error (missingResult "execute_cql_query")

/-! ## Which exceptions a call raises -/

/-- Exceptions that any call may raise. -/
def TException.isChannel : TException → Bool
  | .application _ | .transport _ => true
  | _ => false

theorem recv_error {Result Value : Type}
    {accept : Result → Except TException Value} {incoming : Incoming Result}
    {e : TException} (herror : recv accept incoming = .error e) :
    e.isChannel = true ∨ ∃ result, accept result = .error e := by
  cases incoming with
  | transport what =>
      cases herror
      exact Or.inl rfl
  | exception what =>
      cases herror
      exact Or.inl rfl
  | message result => exact Or.inr ⟨result, herror⟩

/-- `set_keyspace` raises nothing but `InvalidRequestException` of its own. -/
theorem recvSetKeyspace_error {incoming : Incoming SetKeyspaceResult}
    {e : TException} (herror : recvSetKeyspace incoming = .error e) :
    e.isChannel = true ∨ ∃ why, e = .invalidRequest why := by
  obtain hchannel | ⟨result, hresult⟩ := recv_error herror
  · exact Or.inl hchannel
  · cases hire : result.ire with
    | none => simp [hire] at hresult
    | some why =>
        simp only [hire, Except.error.injEq] at hresult
        exact Or.inr ⟨why, hresult.symm⟩

/-- `login` raises the two refusals of its own. -/
theorem recvLogin_error {incoming : Incoming LoginResult} {e : TException}
    (herror : recvLogin incoming = .error e) :
    e.isChannel = true ∨ (∃ why, e = .authentication why) ∨
      ∃ why, e = .authorization why := by
  obtain hchannel | ⟨result, hresult⟩ := recv_error herror
  · exact Or.inl hchannel
  · cases hauthn : result.authnx with
    | some why =>
        simp only [hauthn, Except.error.injEq] at hresult
        exact Or.inr (Or.inl ⟨why, hresult.symm⟩)
    | none =>
        cases hauthz : result.authzx with
        | some why =>
            simp only [hauthn, hauthz, Except.error.injEq] at hresult
            exact Or.inr (Or.inr ⟨why, hresult.symm⟩)
        | none => simp [hauthn, hauthz] at hresult

end PdoCassandra.Thrift
