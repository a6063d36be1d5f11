import PdoCassandra.Foundation.Record

/-!
# Calls over a protocol

A call sends a message with a record of arguments; the processor answers with a
record of results, or with an exception of its own.  The client takes the answer
by the name and the type of the message, and looks at nothing else of it.
-/

namespace PdoCassandra.Foundation.Rpc

open PdoCassandra.Foundation.CString
open PdoCassandra.Foundation.Wire

/-- An exception that is no part of a method's results. -/
structure ApplicationException where
  type : Int32
  message : Bytes := []
  deriving DecidableEq

namespace ApplicationException

def unknown : Int32 := 0
def unknownMethod : Int32 := 1
def invalidMessageType : Int32 := 2
def wrongMethodName : Int32 := 3
def badSequenceId : Int32 := 4
def missingResult : Int32 := 5

end ApplicationException

/-- A protocol with exceptions of the application. -/
structure Runtime extends Protocol where
  writeException : ApplicationException → Bytes
  readException : Reader ApplicationException
  /-- The text of an exception. -/
  what : ApplicationException → Bytes
  readException_reads : ∀ {e}, e.message.length < Datum.sizeLimit →
    Reads readException (writeException e) e
  readException_consumes : Consumes readException
  what_message : ∀ {e : ApplicationException}, e.message ≠ [] → what e = cstr e.message

/-! ## Exceptions as records -/

namespace ApplicationException

def fields (P : Protocol) : List (Field P ApplicationException) :=
  [.plain 1 (.string P) ⟨message, fun message e => { e with message }, fun _ => rfl⟩,
   .plain 2 (.i32 P) ⟨type, fun type e => { e with type }, fun _ => rfl⟩]

theorem fields_nodup (P : Protocol) : ((fields P).map Field.id).Nodup := by
  change ([1, 2] : List Int16).Nodup
  decide

def record (P : Protocol) : Record P ApplicationException :=
  ⟨fields P, fields_nodup P, List.pairwise_pair.mpr fun _ _ _ => rfl⟩

theorem record_fits {P : Protocol} {e : ApplicationException}
    (hmessage : e.message.length < Datum.sizeLimit) : (record P).Fits e := by
  intro field hmem _
  rcases List.mem_cons.mp hmem with rfl | hmem
  · exact hmessage
  · rw [List.mem_singleton.mp hmem]
    exact trivial

theorem record_overlay {P : Protocol} (old e : ApplicationException) :
    (record P).overlay old e = e := by
  rw [Record.overlay_eq_foldl]
  rfl

/-- The text of an exception, or what stands for it when it has none. -/
def text (e : ApplicationException) : Bytes :=
  if e.message ≠ [] then cstr e.message
  else if e.type = unknown then bytesOf "TApplicationException: Unknown application exception"
  else if e.type = unknownMethod then bytesOf "TApplicationException: Unknown method"
  else if e.type = invalidMessageType then
    bytesOf "TApplicationException: Invalid message type"
  else if e.type = wrongMethodName then bytesOf "TApplicationException: Wrong method name"
  else if e.type = badSequenceId then bytesOf "TApplicationException: Bad sequence identifier"
  else if e.type = missingResult then bytesOf "TApplicationException: Missing result"
  else bytesOf "TApplicationException: (Invalid exception type)"

end ApplicationException

/-- A protocol whose exceptions are records of a text and a number. -/
def runtime (P : Protocol) : Runtime where
  toProtocol := P
  writeException := (ApplicationException.record P).write
  readException := (ApplicationException.record P).read ⟨ApplicationException.unknown, []⟩
  what := ApplicationException.text
  readException_reads hmessage := by
    have hreads := Record.reads_of_denotes
      (Record.write_denotes (ApplicationException.record_fits (P := P) hmessage))
      ⟨ApplicationException.unknown, []⟩
    rwa [ApplicationException.record_overlay] at hreads
  readException_consumes := Record.read_consumes _
  what_message hmessage := if_pos hmessage

/-- What a client is sent. -/
inductive Reply (Result : Type) where
  | result (result : Result)
  | exception (e : ApplicationException)

structure Method (R : Runtime) (Args Result : Type) where
  name : Bytes
  args : Record R.toProtocol Args
  result : Record R.toProtocol Result
  freshArgs : Args
  freshResult : Result
  name_fits : name.length < Datum.sizeLimit
  /-- No field of a result is asked for. -/
  optional : ∀ field ∈ result.fields, field.required = false

variable {R : Runtime} {Args Result State : Type}

/-- A message's beginning and what stands in it. -/
def message (R : Runtime) (name : Bytes) (type : MessageType) (seqid : Int32)
    (body : Bytes) : Bytes :=
  R.write .messageBegin ⟨name, type, seqid⟩ ++ body

/-! ## Results -/

/-- A result with no more than the first of its fields that are set. -/
def firstSetting (record : Record R.toProtocol Result) (result : Result) :
    List (Setting R.toProtocol Result) :=
  (record.settings result).take 1

/-- The first field that is set, and no other. -/
def writeFirst (record : Record R.toProtocol Result) (result : Result) : Bytes :=
  Record.wireOf ((firstSetting record result).map Record.emit)

/-! ## The client -/

/-- Pass over the struct of a message that is not the one expected. -/
def passUnless (R : Runtime) (expected : Bool) : Reader Unit :=
  if expected then pure () else R.skip .struct

theorem passUnless_consumes (R : Runtime) (expected : Bool) :
    Consumes (passUnless R expected) := by
  unfold passUnless
  split
  case isTrue => exact Consumes.pure ()
  case isFalse => exact R.skip_consumes .struct

namespace Method

variable (m : Method R Args Result)

def send (args : Args) : Bytes :=
  message R m.name .call 0 (m.args.write args)

def readResult : Reader (Reply Result) := do
  let result ← m.result.read m.freshResult
  pure (.result result)

/-- The part of a `recv_` behind the beginning of the message. -/
def recvBody (header : MessageHeader) : Reader (Reply Result) :=
  if header.type = .exception then do
    let e ← R.readException
    pure (.exception e)
  else do
    passUnless R (header.type = .reply)
    passUnless R (header.name = m.name)
    m.readResult

def recv : Reader (Reply Result) := do
  let header ← R.read .messageBegin
  m.recvBody header

/-! ## The processor -/

def reply (seqid : Int32) : Reply Result → Bytes
  | .result result => message R m.name .reply seqid (writeFirst m.result result)
  | .exception e => message R m.name .exception seqid (R.writeException e)

/-- A `process_` function: read the arguments, call the handler, and write what it gives. -/
def process (handle : Args → State → Reply Result × State) (seqid : Int32)
    (state : State) : Reader (Bytes × State) := do
  let args ← m.args.read m.freshArgs
  let outcome := handle args state
  pure (m.reply seqid outcome.1, outcome.2)

end Method

/-- A `process_` function, and how it is found by the name of a message. -/
abbrev ProcessFunction (State : Type) := Int32 → State → Reader (Bytes × State)

abbrev ProcessMap (State : Type) := Bytes → Option (ProcessFunction State)

/-- The answer to a message that no method takes. -/
def refusal (R : Runtime) (header : MessageHeader) (e : ApplicationException) : Bytes :=
  message R header.name .exception header.seqid (R.writeException e)

def invalidMethodName (name : Bytes) : Bytes :=
  bytesOf "Invalid method name: '" ++ name ++ bytesOf "'"

def processFn (R : Runtime) (processMap : ProcessMap State) (header : MessageHeader)
    (state : State) : Reader (Bytes × State) :=
  match processMap header.name with
  | none => do
      R.skip .struct
      pure (refusal R header ⟨ApplicationException.unknownMethod,
        invalidMethodName header.name⟩, state)
  | some function => function header.seqid state

def processBody (R : Runtime) (processMap : ProcessMap State) (header : MessageHeader)
    (state : State) : Reader (Bytes × State) :=
  if header.type = .call ∨ header.type = .oneway then processFn R processMap header state
  else do
    R.skip .struct
    pure (refusal R header ⟨ApplicationException.invalidMessageType, []⟩, state)

def process (R : Runtime) (processMap : ProcessMap State) (state : State) :
    Reader (Bytes × State) := do
  let header ← R.read .messageBegin
  processBody R processMap header state

/-! ## What is read of an answer -/

namespace Method

variable {m : Method R Args Result}

/-- What the client makes of an answer. -/
def received (m : Method R Args Result) : Reply Result → Reply Result
  | .result result =>
      .result ((firstSetting m.result result).foldl Setting.store m.freshResult)
  | .exception e => .exception e

/-- An answer can be read back. -/
def ReplyFits (m : Method R Args Result) : Reply Result → Prop
  | .result result => m.result.Fits result
  | .exception e => e.message.length < Datum.sizeLimit

theorem complete_of_optional (settings : List (Setting R.toProtocol Result)) :
    m.result.Complete settings := by
  intro field hmem hrequired
  rw [m.optional field hmem] at hrequired
  cases hrequired

theorem emit_legal {result : Result} (hfits : m.result.Fits result) :
    ∀ chunk ∈ (firstSetting m.result result).map Record.emit, chunk.Legal m.result := by
  intro chunk hmem
  obtain ⟨setting, hsetting, rfl⟩ := List.mem_map.mp hmem
  obtain ⟨field, hfield, hpresent, rfl⟩ :=
    Record.mem_settings.mp (List.mem_of_mem_take hsetting)
  exact ⟨hfield, field.codec.write_denotes (hfits field hfield hpresent)⟩

theorem read_writeFirst {result : Result} (hfits : m.result.Fits result) :
    Reads (m.result.read m.freshResult) (writeFirst m.result result)
      ((firstSetting m.result result).foldl Setting.store m.freshResult) := by
  have hreads := Record.read_reads (emit_legal hfits) (complete_of_optional _) m.freshResult
  rwa [Record.settingsOf_map_emit] at hreads

/-- A record of results from any sender, read by the client. -/
theorem recv_result {header : MessageHeader} {wire : Bytes} {result : Result}
    (hname : header.name = m.name) (htype : header.type = .reply)
    (hread : Reads (m.result.read m.freshResult) wire result) :
    Reads m.recv (R.write .messageBegin header ++ wire) (.result result) := by
  have hfits : Datum.Fits .messageBegin header :=
    ⟨hname ▸ m.name_fits, by rw [htype]; rfl⟩
  refine (R.read_write hfits).bind ?_
  rw [recvBody, if_neg (by rw [htype]; exact nofun), htype, hname]
  simp only [decide_true, passUnless, if_true, pure_bind]
  exact hread.bind_pure Reply.result

/-- An exception is taken under any name. -/
theorem recv_exception {header : MessageHeader} (hname : header.name.length < Datum.sizeLimit)
    (htype : header.type = .exception) {e : ApplicationException}
    (he : e.message.length < Datum.sizeLimit) :
    Reads m.recv (R.write .messageBegin header ++ R.writeException e) (.exception e) := by
  have hfits : Datum.Fits .messageBegin header := ⟨hname, by rw [htype]; rfl⟩
  refine (R.read_write hfits).bind ?_
  rw [recvBody, if_pos htype]
  exact (R.readException_reads he).bind_pure Reply.exception

/--
The answer to another call is passed over, and what stands behind it is read for the
record of results, without a message's beginning.
-/
theorem recv_otherName {header : MessageHeader} {body : Bytes}
    (hfits : Datum.Fits .messageBegin header) (htype : header.type = .reply)
    (hname : header.name ≠ m.name) (hbody : Spells R.toEncoding (.value .struct) body)
    (rest : Bytes) :
    m.recv (R.write .messageBegin header ++ (body ++ rest)) = m.readResult rest := by
  have hnot : ¬ header.type = .exception := by
    rw [htype]
    exact nofun
  rw [recv, bind_ok (R.read_write hfits (body ++ rest)), recvBody, if_neg hnot, htype]
  simp only [decide_true, hname, decide_false, passUnless, if_true, pure_bind,
    Bool.false_eq_true, if_false]
  exact bind_ok (R.skip_spelled hbody rest)

/-- The client takes what the processor answers. -/
theorem recv_reply {reply : Reply Result} (hfits : m.ReplyFits reply) (seqid : Int32) :
    Reads m.recv (m.reply seqid reply) (m.received reply) := by
  cases reply with
  | result result => exact recv_result rfl rfl (read_writeFirst hfits)
  | exception e => exact recv_exception m.name_fits rfl hfits

/-- The processor hands the arguments to the handler and answers with what it gives. -/
theorem process_send {processMap : ProcessMap State}
    {handle : Args → State → Reply Result × State}
    (hfind : processMap m.name = some (m.process handle)) {args : Args}
    (hfits : m.args.Fits args) (state : State) :
    Reads (Rpc.process R processMap state) (m.send args)
      (m.reply 0 (handle (m.args.overlay m.freshArgs args) state).1,
        (handle (m.args.overlay m.freshArgs args) state).2) := by
  have hheader : Datum.Fits .messageBegin ⟨m.name, .call, 0⟩ := ⟨m.name_fits, rfl⟩
  refine (R.read_write hheader).bind ?_
  rw [processBody, if_pos (Or.inl rfl), processFn, hfind]
  have hargs := Record.reads_of_denotes (Record.write_denotes hfits) m.freshArgs
  exact hargs.bind_pure fun args => (m.reply 0 (handle args state).1, (handle args state).2)

theorem readResult_consumes (m : Method R Args Result) : Consumes m.readResult :=
  (Record.read_consumes m.freshResult).bind fun _ => Consumes.pure _

theorem recv_consumes (m : Method R Args Result) : Consumes m.recv := by
  refine (R.read_consumes .messageBegin).bind fun header => ?_
  unfold recvBody
  split
  case isTrue => exact R.readException_consumes.bind fun _ => Consumes.pure _
  case isFalse =>
    exact (passUnless_consumes R _).bind fun _ =>
      (passUnless_consumes R _).bind fun _ => m.readResult_consumes

/-- A call is not processed before its last byte is there, whatever other methods there are. -/
theorem process_awaits {processMap : ProcessMap State}
    {handle : Args → State → Reply Result × State}
    (hfind : processMap m.name = some (m.process handle)) {args : Args}
    (hfits : m.args.Fits args) (state : State) :
    Awaits (Rpc.process R processMap state) (m.send args) := by
  have hheader : Datum.Fits .messageBegin ⟨m.name, .call, 0⟩ := ⟨m.name_fits, rfl⟩
  refine Awaits.bind (R.read_consumes .messageBegin) (R.read_write hheader) ?_
  rw [processBody, if_pos (Or.inl rfl), processFn, hfind]
  have hargs := Record.reads_of_denotes (Record.write_denotes hfits) m.freshArgs
  have hconsumes : Consumes (m.process handle 0 state) :=
    (Record.read_consumes m.freshArgs).bind fun _ => Consumes.pure _
  exact Awaits.of_reads hconsumes
    (hargs.bind_pure fun args => (m.reply 0 (handle args state).1, (handle args state).2))

theorem readResult_nil (m : Method R Args Result) (outcome : Reply Result × Bytes) :
    m.readResult [] ≠ .ok outcome := by
  intro hread
  cases hresult : m.result.read m.freshResult [] with
  | error failure =>
      rw [readResult, bind_error hresult] at hread
      cases hread
  | ok result => exact Record.read_nil m.freshResult result hresult

theorem recv_nil (m : Method R Args Result) (outcome : Reply Result × Bytes) :
    m.recv [] ≠ .ok outcome :=
  (R.read_progresses .messageBegin).bind_nil_ne_ok outcome

end Method

theorem process_nil (processMap : ProcessMap State) (state : State)
    (outcome : (Bytes × State) × Bytes) : process R processMap state [] ≠ .ok outcome :=
  (R.read_progresses .messageBegin).bind_nil_ne_ok outcome

/-! ## Messages that no method takes -/

variable {processMap : ProcessMap State} {header : MessageHeader} {body : Bytes}

end PdoCassandra.Foundation.Rpc
