import PdoCassandra.Foundation.BinaryProtocol
import PdoCassandra.Thrift.Session

/-!
# Calls over one connection

However the sends of a client, the work of the processor and the reads of the
client interleave, the answers come in the order of the calls, each once.  The
order is all that ties an answer to its call: one that is not awaited is taken for
the answer to the next call of its name.
-/

namespace PdoCassandra.Properties.RemoteCalls

open PdoCassandra.Foundation
open PdoCassandra.Foundation.CString
open PdoCassandra.Foundation.Pipeline
open PdoCassandra.Foundation.Rpc
open PdoCassandra.Foundation.Transition
open PdoCassandra.Foundation.Wire
open PdoCassandra.Thrift
open PdoCassandra.Thrift.Rpc
open PdoCassandra.Thrift.Session

variable (R : Runtime) {Server : Type} (iface : Iface Server) (others : ProcessMap Server)
  (origin : Server)

/-! ## A small handler -/

/-- The Thrift runtime with its binary protocol. -/
def binary : Runtime := runtime BinaryProtocol.protocol

/-- A handler that keeps the keyspace and has no data. -/
def plainIface : Iface Bytes where
  login _ keyspace := (.ok (), keyspace)
  setKeyspace keyspace _ := (.ok (), keyspace)
  describeKeyspace _ keyspace := (.error .notFound, keyspace)
  describeVersion keyspace := (.ok (bytesOf "19.4.0"), keyspace)
  executeCqlQuery _ _ keyspace := (.error (.invalidRequest (bytesOf "no data")), keyspace)
  what _ := bytesOf "internal error"

/-- A processor with no other methods. -/
def noOthers : ProcessMap Bytes := fun _ => none

abbrev query (text : Bytes × Int32) : Call := .executeCqlQuery text.1 text.2

theorem why_fits {why : Bytes} (hwhy : why.length < Datum.sizeLimit) :
    (Records.WhyException.record R.toProtocol).Fits ⟨why⟩ := by
  intro field hmem _
  rw [List.mem_singleton.mp hmem]
  exact hwhy

theorem query_carried (text : Bytes × Int32) (htext : text.1.length < Datum.sizeLimit) :
    Carried R plainIface (query text) := by
  refine ⟨fun field hmem _ => ?_, fun server field hmem hpresent => ?_⟩
  · rcases List.mem_cons.mp hmem with rfl | hmem
    · exact htext
    · rw [List.mem_singleton.mp hmem]
      trivial
  · rcases List.mem_cons.mp hmem with rfl | hmem
    · cases hpresent
    · simp only [List.mem_cons, List.not_mem_nil, or_false] at hmem
      rcases hmem with rfl | rfl | rfl | rfl
      · exact why_fits R (by decide)
      all_goals cases hpresent

theorem queries_carried {texts : List (Bytes × Int32)}
    (htexts : ∀ text ∈ texts, text.1.length < Datum.sizeLimit) :
    ∀ call ∈ texts.map query, Carried R plainIface call := by
  intro call hmem
  obtain ⟨text, htext, rfl⟩ := List.mem_map.mp hmem
  exact query_carried R text (htexts text htext)

/-- Two texts, with no compression and with one that there is none of. -/
def twoTexts : List (Bytes × Int32) := [([97], 2), ([98], 9)]

theorem twoTexts_short : ∀ text ∈ twoTexts, text.1.length < Datum.sizeLimit := by
  intro text hmem
  have hone : text.1.length = 1 := by
    rcases List.mem_cons.mp hmem with rfl | hmem
    · rfl
    · rw [List.mem_singleton.mp hmem]
      rfl
  rw [hone]
  exact Datum.one_lt_sizeLimit

/-! ## Interleavings -/

/-- The machine of a client and the processor, nothing being under way. -/
abbrev machine := step (exchange R iface others)

abbrev Fresh : State Call (Except TException Value) Server := { server := origin }

/-- A split of a list, by the lengths of its parts. -/
theorem take_split {Element : Type} {all first rest : List Element} (hall : all = first ++ rest) :
    all.take first.length = first := by
  rw [hall, List.take_left]

/-- What the client has, and where the server is, from what is in flight. -/
theorem inFlight_answers {state : State Call (Except TException Value) Server}
    (hordered : Ordered (exchange R iface others) origin state) :
    state.taken =
        (exchange R iface others).answers origin (state.sent.take state.taken.length) ∧
      ∃ count, state.taken.length ≤ count ∧ count ≤ state.sent.length ∧
        state.server = (exchange R iface others).after origin (state.sent.take count) := by
  obtain ⟨done, served, waiting, hflight⟩ := hordered
  have hserved : state.sent = (done ++ served) ++ waiting := by
    rw [hflight.sent, List.append_assoc]
  refine ⟨?_, (done ++ served).length, ?_, ?_, ?_⟩
  · rw [hflight.length_taken, take_split hflight.sent]
    exact hflight.taken
  · rw [hflight.length_taken, List.length_append]
    exact Nat.le_add_right _ _
  · have hle : (done ++ served).length ≤ ((done ++ served) ++ waiting).length := by
      simp only [List.length_append, Nat.le_add_right]
    rwa [← hserved] at hle
  · rw [take_split hserved]
    exact hflight.server

/--
In any interleaving the client has the answers to the first of its calls, as the
handler gives them to the same calls made one after the other.
-/
theorem answers_in_order {events : List (Event Call)}
    {final : State Call (Except TException Value) Server}
    (hlegal : EachStep (machine R iface others) (InOrder (exchange R iface others))
      (Fresh origin) events)
    (hrun : run (machine R iface others) (Fresh origin) events = some final) :
    final.taken =
        (exchange R iface others).answers origin (final.sent.take final.taken.length) ∧
      ∃ count, final.taken.length ≤ count ∧ count ≤ final.sent.length ∧
        final.server = (exchange R iface others).after origin (final.sent.take count) :=
  inFlight_answers R iface others origin (run_ordered hlegal hrun)

theorem answers_in_order_two :
    ∃ events final, run (machine binary plainIface noOthers) (Fresh []) events = some final ∧
      final.taken.length = 2 ∧
      final.taken = (exchange binary plainIface noOthers).answers []
        (final.sent.take final.taken.length) := by
  obtain ⟨sent, hsends, hsent, hwaiting⟩ := run_sends
    (E := exchange binary plainIface noOthers)
    (queries_carried binary twoTexts_short) (inFlight_start [])
  obtain ⟨final, htakes, hrun, hfinal⟩ := run_drain hwaiting
  have hall : run (machine binary plainIface noOthers) (Fresh [])
      ((twoTexts.map query).map .send ++ drain [] ([] ++ twoTexts.map query)) =
        some final := by
    rw [run_append, hsent, Option.bind_some]
    exact hrun
  exact ⟨_, final, hall, hfinal.length_taken,
    (answers_in_order binary plainIface noOthers [] (hsends.append hsent htakes) hall).1⟩

/-- Whatever is under way can be brought to an end, with one answer for each call. -/
theorem run_completes {events : List (Event Call)}
    {final : State Call (Except TException Value) Server}
    (hlegal : EachStep (machine R iface others) (InOrder (exchange R iface others))
      (Fresh origin) events)
    (hrun : run (machine R iface others) (Fresh origin) events = some final) :
    ∃ more finished, EachStep (machine R iface others)
        (InOrder (exchange R iface others)) final more ∧
      run (machine R iface others) final more = some finished ∧
      finished.sent = final.sent ∧ finished.toServer = [] ∧ finished.toClient = [] ∧
      finished.taken = (exchange R iface others).answers origin final.sent ∧
      finished.server = (exchange R iface others).after origin final.sent := by
  obtain ⟨done, served, waiting, hflight⟩ := run_ordered hlegal hrun
  obtain ⟨finished, hinOrder, hmore, hfinished⟩ := run_drain hflight
  have hall : done ++ (served ++ waiting) = final.sent := hflight.sent.symm
  rw [hall] at hfinished
  refine ⟨drain served waiting, finished, hinOrder, hmore, ?_, hfinished.toServer,
    hfinished.toClient, hfinished.taken, ?_⟩
  · exact hfinished.sent.trans (List.append_nil _)
  · exact hfinished.server.trans (congrArg _ (List.append_nil _))

theorem run_completes_two :
    ∃ sent more finished, run (machine binary plainIface noOthers) sent more = some finished ∧
      finished.sent = twoTexts.map query ∧
      finished.taken =
        (exchange binary plainIface noOthers).answers [] (twoTexts.map query) := by
  obtain ⟨sent, hsends, hsent, hwaiting⟩ := run_sends
    (E := exchange binary plainIface noOthers)
    (queries_carried binary twoTexts_short) (inFlight_start [])
  obtain ⟨more, finished, -, hmore, hall, -, -, htaken, -⟩ :=
    run_completes binary plainIface noOthers [] hsends hsent
  rw [hwaiting.sent] at hall htaken
  exact ⟨sent, more, finished, hmore, hall, htaken⟩

/-! ## An answer that is not awaited -/

/--
Behind a query whose answer was not awaited, each query of a synchronous client has
the answer to the query before it.
-/
theorem unawaited_answer_shifts (first : Bytes × Int32) (queries : List (Bytes × Int32))
    (hcarried : ∀ text ∈ first :: queries, Carried R iface (query text)) :
    ∃ final,
      run (machine R iface others) (Fresh origin)
          ([.send (query first), .serve] ++ (queries.map query).flatMap round) = some final ∧
        final.taken = (exchange R iface others).answers origin
          (((first :: queries).take queries.length).map query) := by
  have hfirst : (exchange R iface others).Carried (query first) :=
    hcarried first List.mem_cons_self
  have hstart : InFlight (exchange R iface others) origin (Fresh origin) [] [] [] :=
    inFlight_start origin
  obtain ⟨sent, hsend⟩ : ∃ sent, machine R iface others (Fresh origin)
      (.send (query first)) = some sent := ⟨_, rfl⟩
  have hsent := send_inFlight hfirst hstart hsend
  obtain ⟨served, hserve⟩ : ∃ served, machine R iface others sent .serve = some served := by
    rw [machine, step, process_waiting hsent]
    exact ⟨_, rfl⟩
  obtain ⟨call, rest, hrest, hserved⟩ := serve_inFlight hsent hserve
  cases hrest
  have hqueries : ∀ call ∈ queries.map query, (exchange R iface others).Carried call ∧
      (exchange R iface others).recv call = (exchange R iface others).recv (query first) := by
    intro call hmem
    obtain ⟨text, htext, rfl⟩ := List.mem_map.mp hmem
    exact ⟨hcarried text (List.mem_cons_of_mem _ htext), rfl⟩
  obtain ⟨final, hrun, htaken⟩ := run_rounds_late hqueries hserved
  refine ⟨final, ?_, ?_⟩
  · rw [run_append, run_cons_of_step _ hsend, run_cons_of_step _ hserve, run_nil]
    exact hrun
  · rw [htaken, List.nil_append, List.length_map, List.map_take, List.map_cons]

theorem unawaited_answer_shifts_two :
    ∃ final, run (machine binary plainIface noOthers) (Fresh [])
        ([.send (query ([97], 2)), .serve] ++
          ([([98], 9)].map query).flatMap round) = some final ∧
      final.taken = (exchange binary plainIface noOthers).answers []
        [query ([97], 2)] :=
  unawaited_answer_shifts binary plainIface noOthers [] ([97], 2) [([98], 9)]
    fun text hmem => query_carried binary text (twoTexts_short text hmem)

/-! ## Messages that are no calls of the driver -/

/-- What can stand in the processor's stream. -/
inductive Message where
  | call (made : Call)
  /-- A call of a name that the processor does not have. -/
  | unknownMethod (header : MessageHeader) (body : Bytes)
  /-- A message of another type. -/
  | noCall (header : MessageHeader) (body : Bytes)

namespace Message

def wire : Message → Bytes
  | .call made => send R made
  | .unknownMethod header body | .noCall header body => R.write .messageBegin header ++ body

def Legal : Message → Prop
  | .call made => Carried R iface made
  | .unknownMethod header body =>
      Datum.Fits .messageBegin header ∧ (header.type = .call ∨ header.type = .oneway) ∧
        processMap R iface others header.name = none ∧
        Spells R.toEncoding (.value .struct) body
  | .noCall header body =>
      Datum.Fits .messageBegin header ∧ ¬ (header.type = .call ∨ header.type = .oneway) ∧
        Spells R.toEncoding (.value .struct) body

def calls : Message → List Call
  | .call made => [made]
  | .unknownMethod _ _ | .noCall _ _ => []

def reply (server : Server) : Message → Bytes
  | .call made => replyTo R iface server made
  | .unknownMethod header _ =>
      refusal R header ⟨ApplicationException.unknownMethod, invalidMethodName header.name⟩
  | .noCall header _ => refusal R header ⟨ApplicationException.invalidMessageType, []⟩

end Message

variable {R} {iface} {others}

/-- A reply under another name is not taken for the answer of a call. -/
theorem foreign_reply_passed {call : Call} {header : MessageHeader} {body : Bytes}
    (hfits : Datum.Fits .messageBegin header) (htype : header.type = .reply)
    (hname : header.name ≠ nameOf R call)
    (hbody : Spells R.toEncoding (.value .struct) body) :
    (∀ rest, recv R call (R.write .messageBegin header ++ (body ++ rest)) =
        readResult R call rest) ∧
      ∀ outcome, recv R call (R.write .messageBegin header ++ body) ≠ .ok outcome := by
  have hpassed := recv_otherName hfits htype hname hbody
  refine ⟨hpassed, fun outcome hrecv => ?_⟩
  have hnil := hpassed []
  rw [List.append_nil, hrecv] at hnil
  exact readResult_nil call outcome hnil.symm

theorem foreign_reply_passed_login :
    ¬ ∃ outcome, recv binary (query ([97], 2))
        (binary.write .messageBegin ⟨bytesOf "login", .reply, 0⟩ ++
          binary.write .fieldBegin none) = .ok outcome := by
  rintro ⟨outcome, hrecv⟩
  exact (@foreign_reply_passed binary (query ([97], 2)) ⟨bytesOf "login", .reply, 0⟩ _
    ⟨by decide, rfl⟩ rfl (by decide) (Spells.struct Spells.stop)).2 outcome hrecv

end PdoCassandra.Properties.RemoteCalls
