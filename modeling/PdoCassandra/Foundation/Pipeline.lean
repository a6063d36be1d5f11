import PdoCassandra.Foundation.Transition
import PdoCassandra.Foundation.Wire

/-!
# Calls in flight

A client and a server with a stream of bytes in each direction.  Calls are sent,
served and taken back in any interleaving.  Nothing on the wire ties an answer to
its call, so that the order alone decides whose answer a client takes.
-/

namespace PdoCassandra.Foundation.Pipeline

open PdoCassandra.Foundation.CString
open PdoCassandra.Foundation.Transition
open PdoCassandra.Foundation.Wire

/-- A client and a server that understand each other. -/
structure Exchange (Call Outcome Server : Type) where
  send : Call → Bytes
  process : Server → Reader (Bytes × Server)
  recv : Call → Reader Outcome
  /-- The call made on the server itself. -/
  answer : Server → Call → Outcome × Server
  reply : Server → Call → Bytes
  /-- The call, and any answer to it, can be carried. -/
  Carried : Call → Prop
  process_send : ∀ server {call}, Carried call →
    Reads (process server) (send call) (reply server call, (answer server call).2)
  recv_reply : ∀ server {call}, Carried call →
    Reads (recv call) (reply server call) (answer server call).1
  process_awaits : ∀ server {call}, Carried call → Awaits (process server) (send call)
  recv_awaits : ∀ server {call}, Carried call → Awaits (recv call) (reply server call)
  process_nil : ∀ server outcome, process server [] ≠ .ok outcome
  recv_nil : ∀ call outcome, recv call [] ≠ .ok outcome

variable {Call Outcome Server : Type}

namespace Exchange

variable (E : Exchange Call Outcome Server)

/-- The server after calls made on it directly. -/
def after (server : Server) (calls : List Call) : Server :=
  calls.foldl (fun server call => (E.answer server call).2) server

/-- The answers to calls made on the server directly. -/
def answers : Server → List Call → List Outcome
  | _, [] => []
  | server, call :: calls =>
      (E.answer server call).1 :: answers (E.answer server call).2 calls

/-- The answers to a list of calls, as they stand on the wire. -/
def replies : Server → List Call → Bytes
  | _, [] => []
  | server, call :: calls =>
      E.reply server call ++ replies (E.answer server call).2 calls

def sends (calls : List Call) : Bytes :=
  calls.flatMap E.send

theorem after_append (server : Server) (first second : List Call) :
    E.after server (first ++ second) = E.after (E.after server first) second :=
  List.foldl_append

theorem answers_append (server : Server) (first second : List Call) :
    E.answers server (first ++ second) =
      E.answers server first ++ E.answers (E.after server first) second := by
  induction first generalizing server with
  | nil => rfl
  | cons call calls ih => exact congrArg (_ :: ·) (ih _)

theorem replies_append (server : Server) (first second : List Call) :
    E.replies server (first ++ second) =
      E.replies server first ++ E.replies (E.after server first) second := by
  induction first generalizing server with
  | nil => rfl
  | cons call calls ih =>
      rw [List.cons_append, replies, ih, replies, List.append_assoc]
      rfl

theorem length_answers (server : Server) (calls : List Call) :
    (E.answers server calls).length = calls.length := by
  induction calls generalizing server with
  | nil => rfl
  | cons call calls ih => exact congrArg Nat.succ (ih _)

end Exchange

/-! ## The machine -/

structure State (Call Outcome Server : Type) where
  server : Server
  toServer : Bytes := []
  toClient : Bytes := []
  /-- All calls sent so far. -/
  sent : List Call := []
  /-- All outcomes taken so far. -/
  taken : List Outcome := []

inductive Event (Call : Type) where
  | send (call : Call)
  | serve
  | take (call : Call)

variable (E : Exchange Call Outcome Server)

/-- One event; a read that fails ends the run. -/
def step (state : State Call Outcome Server) :
    Event Call → Option (State Call Outcome Server)
  | .send call =>
      some { state with
        toServer := state.toServer ++ E.send call
        sent := state.sent ++ [call] }
  | .serve =>
      match E.process state.server state.toServer with
      | .error _ => none
      | .ok ((reply, server), rest) =>
          some { state with
            server := server
            toServer := rest
            toClient := state.toClient ++ reply }
  | .take call =>
      match E.recv call state.toClient with
      | .error _ => none
      | .ok (outcome, rest) =>
          some { state with toClient := rest, taken := state.taken ++ [outcome] }

/--
Calls are carried, and an outcome is taken by a function that would take the one of
the oldest call still out; the call that the client has in mind may be another.
-/
def InOrder (state : State Call Outcome Server) : Event Call → Prop
  | .send call => E.Carried call
  | .serve => True
  | .take call =>
      ∃ oldest, state.sent[state.taken.length]? = some oldest ∧ E.recv call = E.recv oldest

/-! ## What is in flight -/

/--
The calls sent, split into those that were taken back, those that were served and
wait for the client, and those that wait for the server.
-/
structure InFlight (origin : Server) (state : State Call Outcome Server)
    (done served waiting : List Call) : Prop where
  sent : state.sent = done ++ (served ++ waiting)
  carried : ∀ call ∈ state.sent, E.Carried call
  server : state.server = E.after origin (done ++ served)
  toServer : state.toServer = E.sends waiting
  toClient : state.toClient = E.replies (E.after origin done) served
  taken : state.taken = E.answers origin done

/-- Nothing is lost, doubled or out of its order. -/
def Ordered (origin : Server) (state : State Call Outcome Server) : Prop :=
  ∃ done served waiting, InFlight E origin state done served waiting

variable {E} {origin : Server} {state next : State Call Outcome Server}
  {done served waiting : List Call}

theorem InFlight.length_taken (hflight : InFlight E origin state done served waiting) :
    state.taken.length = done.length := by
  rw [hflight.taken, E.length_answers]

/-- What is in flight is carried. -/
theorem InFlight.out_carried (hflight : InFlight E origin state done served waiting) :
    ∀ call ∈ served ++ waiting, E.Carried call := by
  intro call hmem
  refine hflight.carried call ?_
  rw [hflight.sent]
  exact List.mem_append_right done hmem

/-- The function that takes an outcome in order takes the one of the first call out. -/
theorem recv_oldest {call first : Call} (horder : InOrder E state (.take call))
    (hflight : InFlight E origin state done (first :: served) waiting) :
    E.recv call = E.recv first := by
  obtain ⟨oldest, holdest, hrecv⟩ := horder
  rw [hflight.sent, hflight.length_taken] at holdest
  have hfirst : first = oldest := by simpa using holdest
  rw [hrecv, hfirst]

theorem send_inFlight {call : Call} (hcarried : E.Carried call)
    (hflight : InFlight E origin state done served waiting)
    (hstep : step E state (.send call) = some next) :
    InFlight E origin next done served (waiting ++ [call]) := by
  cases hstep
  refine ⟨?_, ?_, hflight.server, ?_, hflight.toClient, hflight.taken⟩
  · simp only [hflight.sent, List.append_assoc]
  · intro other hmem
    rcases List.mem_append.mp hmem with hold | hnew
    · exact hflight.carried other hold
    · exact List.mem_singleton.mp hnew ▸ hcarried
  · simp only [hflight.toServer, Exchange.sends, List.flatMap_append, List.flatMap_singleton]

/-- The server takes the oldest call that waits for it. -/
theorem process_waiting {call : Call}
    (hflight : InFlight E origin state done served (call :: waiting)) :
    E.process state.server state.toServer =
      .ok ((E.reply state.server call, (E.answer state.server call).2),
        E.sends waiting) := by
  rw [hflight.toServer]
  exact E.process_send state.server (hflight.out_carried call (by simp)) (E.sends waiting)

theorem serve_inFlight (hflight : InFlight E origin state done served waiting)
    (hstep : step E state .serve = some next) :
    ∃ call rest, waiting = call :: rest ∧
      InFlight E origin next done (served ++ [call]) rest := by
  cases waiting with
  | nil =>
      cases hprocess : E.process state.server state.toServer with
      | error failure => simp [step, hprocess] at hstep
      | ok outcome =>
          rw [hflight.toServer] at hprocess
          exact absurd hprocess (E.process_nil state.server outcome)
  | cons call rest =>
      simp only [step, process_waiting hflight, Option.some.injEq] at hstep
      subst hstep
      refine ⟨call, rest, rfl, ?_, hflight.carried, ?_, rfl, ?_, hflight.taken⟩
      · simp only [hflight.sent, List.append_assoc, List.singleton_append]
      · rw [← List.append_assoc, E.after_append, ← hflight.server]
        rfl
      · rw [hflight.toClient, E.replies_append, ← E.after_append, ← hflight.server]
        exact congrArg _ (List.append_nil _).symm

/-- The client takes the oldest answer that waits for it. -/
theorem recv_served {call : Call}
    (hflight : InFlight E origin state done (call :: served) waiting) :
    E.recv call state.toClient =
      .ok ((E.answer (E.after origin done) call).1,
        E.replies (E.after origin (done ++ [call])) served) := by
  rw [hflight.toClient, Exchange.replies, E.after_append]
  exact E.recv_reply (E.after origin done) (hflight.out_carried call List.mem_cons_self) _

theorem take_inFlight {call : Call} (horder : InOrder E state (.take call))
    (hflight : InFlight E origin state done served waiting)
    (hstep : step E state (.take call) = some next) :
    ∃ oldest rest, served = oldest :: rest ∧
      InFlight E origin next (done ++ [oldest]) rest waiting := by
  cases served with
  | nil =>
      cases hrecv : E.recv call state.toClient with
      | error failure => simp [step, hrecv] at hstep
      | ok outcome =>
          rw [hflight.toClient] at hrecv
          exact absurd hrecv (E.recv_nil call outcome)
  | cons first rest =>
      simp only [step, recv_oldest horder hflight, recv_served hflight,
        Option.some.injEq] at hstep
      subst hstep
      refine ⟨first, rest, rfl, ?_, hflight.carried, ?_, hflight.toServer, rfl, ?_⟩
      · simp only [hflight.sent, List.append_assoc, List.cons_append, List.nil_append]
      · rw [hflight.server, List.append_assoc, List.singleton_append]
      · rw [hflight.taken, E.answers_append]
        rfl

/-! ## Runs -/

theorem inFlight_start (server : Server) :
    InFlight E server { server : State Call Outcome Server } [] [] [] :=
  ⟨rfl, fun _ hmem => (List.not_mem_nil hmem).elim, rfl, rfl, rfl, rfl⟩

theorem ordered_start (server : Server) :
    Ordered E server { server : State Call Outcome Server } :=
  ⟨[], [], [], inFlight_start server⟩

theorem step_ordered {event : Event Call} (hordered : Ordered E origin state)
    (horder : InOrder E state event) (hstep : step E state event = some next) :
    Ordered E origin next := by
  obtain ⟨done, served, waiting, hflight⟩ := hordered
  cases event with
  | send call => exact ⟨done, served, waiting ++ [call], send_inFlight horder hflight hstep⟩
  | serve =>
      obtain ⟨call, rest, -, hnext⟩ := serve_inFlight hflight hstep
      exact ⟨done, served ++ [call], rest, hnext⟩
  | take call =>
      obtain ⟨oldest, rest, -, hnext⟩ := take_inFlight horder hflight hstep
      exact ⟨done ++ [oldest], rest, waiting, hnext⟩

/-- In order, any interleaving takes the answers of the server in the order of the calls. -/
theorem run_ordered {events : List (Event Call)} {final : State Call Outcome Server}
    (hlegal : EachStep (step E) (InOrder E) { server := origin } events)
    (hrun : run (step E) { server := origin } events = some final) :
    Ordered E origin final :=
  run_invariant step_ordered (ordered_start origin) hlegal hrun

/-! ## Completion -/

/-- Calls can be sent at any time, whatever is under way. -/
theorem run_sends {calls : List Call} (hcarried : ∀ call ∈ calls, E.Carried call)
    (hflight : InFlight E origin state done served waiting) :
    ∃ final, EachStep (step E) (InOrder E) state (calls.map .send) ∧
      run (step E) state (calls.map .send) = some final ∧
      InFlight E origin final done served (waiting ++ calls) := by
  induction calls generalizing state waiting with
  | nil =>
      rw [List.append_nil]
      exact ⟨state, trivial, rfl, hflight⟩
  | cons call calls ih =>
      have hcall := hcarried call List.mem_cons_self
      obtain ⟨sent, hsend⟩ : ∃ sent, step E state (.send call) = some sent := ⟨_, rfl⟩
      have hsent := send_inFlight hcall hflight hsend
      obtain ⟨final, hlegal, hrun, hfinal⟩ :=
        ih (fun other hmem => hcarried other (List.mem_cons_of_mem _ hmem)) hsent
      rw [List.append_assoc, List.singleton_append] at hfinal
      refine ⟨final, ⟨hcall, fun next hnext => ?_⟩, ?_, hfinal⟩
      · rw [hsend, Option.some.injEq] at hnext
        exact hnext ▸ hlegal
      · rw [List.map_cons, run_cons_of_step _ hsend, hrun]

/-- Serve all that waits for the server, and take all that is then in flight. -/
def drain (served waiting : List Call) : List (Event Call) :=
  waiting.map (fun _ => .serve) ++ (served ++ waiting).map .take

theorem run_takes (hflight : InFlight E origin state done served []) :
    ∃ final, EachStep (step E) (InOrder E) state (served.map .take) ∧
      run (step E) state (served.map .take) = some final ∧
      InFlight E origin final (done ++ served) [] [] := by
  induction served generalizing done state with
  | nil =>
      rw [List.append_nil]
      exact ⟨state, trivial, rfl, hflight⟩
  | cons call served ih =>
      obtain ⟨next, htake⟩ : ∃ next, step E state (.take call) = some next := by
        rw [step, recv_served hflight]
        exact ⟨_, rfl⟩
      have horder : InOrder E state (.take call) := by
        refine ⟨call, ?_, rfl⟩
        rw [hflight.sent, hflight.length_taken]
        simp
      obtain ⟨oldest, rest, hrest, hnext⟩ := take_inFlight horder hflight htake
      cases hrest
      obtain ⟨final, hlegal, hrun, hfinal⟩ := ih hnext
      refine ⟨final, ⟨horder, fun taken htaken => ?_⟩, ?_, ?_⟩
      · rw [htake, Option.some.injEq] at htaken
        exact htaken ▸ hlegal
      · rw [List.map_cons, run_cons_of_step _ htake, hrun]
      · rwa [List.append_assoc, List.singleton_append] at hfinal

theorem run_drain (hflight : InFlight E origin state done served waiting) :
    ∃ final, EachStep (step E) (InOrder E) state (drain served waiting) ∧
      run (step E) state (drain served waiting) = some final ∧
      InFlight E origin final (done ++ (served ++ waiting)) [] [] := by
  induction waiting generalizing served state with
  | nil =>
      obtain ⟨final, hlegal, hrun, hfinal⟩ := run_takes hflight
      refine ⟨final, ?_, ?_, ?_⟩
      · rwa [drain, List.map_nil, List.nil_append, List.append_nil]
      · rwa [drain, List.map_nil, List.nil_append, List.append_nil]
      · rwa [List.append_nil]
  | cons call waiting ih =>
      obtain ⟨next, hserve⟩ : ∃ next, step E state .serve = some next := by
        rw [step, process_waiting hflight]
        exact ⟨_, rfl⟩
      obtain ⟨first, rest, hrest, hnext⟩ := serve_inFlight hflight hserve
      cases hrest
      obtain ⟨final, hlegal, hrun, hfinal⟩ := ih hnext
      rw [List.append_assoc, List.singleton_append] at hfinal
      rw [drain, List.append_assoc, List.singleton_append] at hlegal hrun
      refine ⟨final, ⟨trivial, fun after hafter => ?_⟩, ?_, hfinal⟩
      · rw [hserve, Option.some.injEq] at hafter
        exact hafter ▸ hlegal
      · rw [drain, List.map_cons, List.cons_append, run_cons_of_step _ hserve, hrun]

/-! ## Synchronous calls -/

/-- A call as a synchronous client makes it. -/
def round (call : Call) : List (Event Call) :=
  [.send call, .serve, .take call]

/-- With nothing under way, a call is served from the state that the server is in. -/
theorem round_idle {call : Call} (hcarried : E.Carried call)
    (hflight : InFlight E origin state done [] []) :
    ∃ sent served next, step E state (.send call) = some sent ∧
      step E sent .serve = some served ∧ step E served (.take call) = some next ∧
      served.toClient = E.reply state.server call ∧
      next.server = (E.answer state.server call).2 ∧
      InFlight E origin next (done ++ [call]) [] [] := by
  obtain ⟨sent, hsend⟩ : ∃ sent, step E state (.send call) = some sent := ⟨_, rfl⟩
  have hsent := send_inFlight hcarried hflight hsend
  obtain ⟨served, hserve⟩ : ∃ served, step E sent .serve = some served := by
    rw [step, process_waiting hsent]
    exact ⟨_, rfl⟩
  obtain ⟨first, rest, hrest, hserved⟩ := serve_inFlight hsent hserve
  cases hrest
  have horder : InOrder E served (.take call) := by
    refine ⟨call, ?_, rfl⟩
    rw [hserved.sent, hserved.length_taken]
    simp
  obtain ⟨next, htake⟩ : ∃ next, step E served (.take call) = some next := by
    rw [step, recv_served hserved]
    exact ⟨_, rfl⟩
  obtain ⟨oldest, rest, hrest, hnext⟩ := take_inFlight horder hserved htake
  cases hrest
  have hserver : state.server = E.after origin done := by
    rw [hflight.server, List.append_nil]
  refine ⟨sent, served, next, hsend, hserve, htake, ?_, ?_, hnext⟩
  · rw [hserved.toClient, hserver]
    exact List.append_nil _
  · rw [hnext.server, List.append_nil, E.after_append, hserver]
    rfl

/-! ## One call behind -/

/-- With an answer still out, a round takes that answer and leaves its own. -/
theorem run_round_late {last call : Call} (hcarried : E.Carried call)
    (hrecv : E.recv call = E.recv last)
    (hflight : InFlight E origin state done [last] []) :
    ∃ next, run (step E) state (round call) = some next ∧
      InFlight E origin next (done ++ [last]) [call] [] := by
  obtain ⟨sent, hsend⟩ : ∃ sent, step E state (.send call) = some sent := ⟨_, rfl⟩
  have hsent := send_inFlight hcarried hflight hsend
  obtain ⟨served, hserve⟩ : ∃ served, step E sent .serve = some served := by
    rw [step, process_waiting hsent]
    exact ⟨_, rfl⟩
  obtain ⟨first, rest, hrest, hserved⟩ := serve_inFlight hsent hserve
  cases hrest
  have horder : InOrder E served (.take call) := by
    refine ⟨last, ?_, hrecv⟩
    rw [hserved.sent, hserved.length_taken]
    simp
  obtain ⟨next, htake⟩ : ∃ next, step E served (.take call) = some next := by
    simp only [step, hrecv, recv_served hserved]
    exact ⟨_, rfl⟩
  obtain ⟨oldest, rest, hrest, hnext⟩ := take_inFlight horder hserved htake
  cases hrest
  refine ⟨next, ?_, hnext⟩
  rw [round, run_cons_of_step _ hsend, run_cons_of_step _ hserve, run_cons_of_step _ htake,
    run_nil]

/-- A client that is one answer behind stays one answer behind. -/
theorem run_rounds_late {last : Call} {calls : List Call}
    (hcalls : ∀ call ∈ calls, E.Carried call ∧ E.recv call = E.recv last)
    (hflight : InFlight E origin state done [last] []) :
    ∃ final, run (step E) state (calls.flatMap round) = some final ∧
      final.taken = E.answers origin (done ++ (last :: calls).take calls.length) := by
  induction calls generalizing last done state with
  | nil =>
      refine ⟨state, rfl, ?_⟩
      rw [List.length_nil, List.take_zero, List.append_nil]
      exact hflight.taken
  | cons call calls ih =>
      obtain ⟨hcarried, hrecv⟩ := hcalls call List.mem_cons_self
      obtain ⟨next, hround, hnext⟩ := run_round_late hcarried hrecv hflight
      have hrest : ∀ other ∈ calls, E.Carried other ∧ E.recv other = E.recv call := by
        intro other hmem
        obtain ⟨hother, hsame⟩ := hcalls other (List.mem_cons_of_mem _ hmem)
        exact ⟨hother, hsame.trans hrecv.symm⟩
      obtain ⟨final, hrun, htaken⟩ := ih hrest hnext
      refine ⟨final, ?_, ?_⟩
      · rw [List.flatMap_cons, run_append, hround]
        exact hrun
      · rw [htaken, List.length_cons, List.take_succ_cons, List.append_assoc,
          List.singleton_append]

end PdoCassandra.Foundation.Pipeline
