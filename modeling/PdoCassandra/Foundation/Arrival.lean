import PdoCassandra.Foundation.Pipeline

/-!
# Bytes on their way

What is written to a stream arrives in pieces of any size, and a read has no more
than what has arrived.  As a call or an answer cut short is not read, the pieces do
not matter: a run is one of the machine whose streams carry all at once.
-/

namespace PdoCassandra.Foundation.Arrival

open PdoCassandra.Foundation.CString
open PdoCassandra.Foundation.Pipeline
open PdoCassandra.Foundation.Transition
open PdoCassandra.Foundation.Wire

/-- The bytes of one direction, the oldest first. -/
structure Stream where
  arrived : Bytes := []
  underWay : Bytes := []

namespace Stream

def whole (stream : Stream) : Bytes := stream.arrived ++ stream.underWay

def push (stream : Stream) (bytes : Bytes) : Stream :=
  { stream with underWay := stream.underWay ++ bytes }

/-- Some of the bytes under way arrive; there may be fewer. -/
def arrive (stream : Stream) (count : Nat) : Stream where
  arrived := stream.arrived ++ stream.underWay.take count
  underWay := stream.underWay.drop count

@[simp]
theorem whole_push (stream : Stream) (bytes : Bytes) :
    (stream.push bytes).whole = stream.whole ++ bytes :=
  (List.append_assoc _ _ _).symm

@[simp]
theorem whole_arrive (stream : Stream) (count : Nat) :
    (stream.arrive count).whole = stream.whole := by
  rw [whole, arrive, List.append_assoc, List.take_append_drop, whole]

/-- A stream with all of its bytes there. -/
@[simp]
theorem whole_there (bytes : Bytes) : (Stream.mk bytes []).whole = bytes :=
  List.append_nil bytes

end Stream

/-- The machine, with the bytes that are under way. -/
structure Link (Call Outcome Server : Type) where
  server : Server
  toServer : Stream := {}
  toClient : Stream := {}
  sent : List Call := []
  taken : List Outcome := []

inductive Event (Call : Type) where
  | act (event : Pipeline.Event Call)
  | arriveServer (count : Nat)
  | arriveClient (count : Nat)

variable {Call Outcome Server : Type}

namespace Event

/-- What happens at one of the ends. -/
def atEnd : Event Call → Option (Pipeline.Event Call)
  | .act event => some event
  | .arriveServer _ | .arriveClient _ => none

end Event

namespace Link

/-- The state in which all bytes have arrived. -/
def whole (link : Link Call Outcome Server) : State Call Outcome Server where
  server := link.server
  toServer := link.toServer.whole
  toClient := link.toClient.whole
  sent := link.sent
  taken := link.taken

end Link

variable (E : Exchange Call Outcome Server)

/-- One event; a read of a message that is not all there does not come to an end. -/
def step (link : Link Call Outcome Server) : Event Call → Option (Link Call Outcome Server)
  | .act (.send call) =>
      some { link with
        toServer := link.toServer.push (E.send call)
        sent := link.sent ++ [call] }
  | .act .serve =>
      match E.process link.server link.toServer.arrived with
      | .error _ => none
      | .ok ((reply, server), rest) =>
          some { link with
            server := server
            toServer := { link.toServer with arrived := rest }
            toClient := link.toClient.push reply }
  | .act (.take call) =>
      match E.recv call link.toClient.arrived with
      | .error _ => none
      | .ok (outcome, rest) =>
          some { link with
            toClient := { link.toClient with arrived := rest }
            taken := link.taken ++ [outcome] }
  | .arriveServer count => some { link with toServer := link.toServer.arrive count }
  | .arriveClient count => some { link with toClient := link.toClient.arrive count }

/-- The ends keep to the order of the calls. -/
def InOrder (link : Link Call Outcome Server) (event : Event Call) : Prop :=
  ∀ shown, event.atEnd = some shown → Pipeline.InOrder E link.whole shown

variable {E} {origin : Server} {link next : Link Call Outcome Server}
  {done served waiting : List Call}

/-! ## What the ends do, once the bytes are there -/

/-- The server has no outcome but that of the oldest call that waits for it, as a whole. -/
theorem process_arrived {outcome : Bytes × Server} {rest : Bytes}
    (hflight : InFlight E origin link.whole done served waiting)
    (hprocess : E.process link.server link.toServer.arrived = .ok (outcome, rest)) :
    ∃ call calls, waiting = call :: calls ∧
      outcome = (E.reply link.server call, (E.answer link.server call).2) ∧
      link.toServer.arrived = E.send call ++ rest ∧
      rest ++ link.toServer.underWay = E.sends calls := by
  have hwhole : link.toServer.arrived ++ link.toServer.underWay = E.sends waiting :=
    hflight.toServer
  cases waiting with
  | nil =>
      rw [(List.append_eq_nil_iff.mp hwhole).1] at hprocess
      exact absurd hprocess (E.process_nil link.server _)
  | cons call calls =>
      have hcarried := hflight.out_carried call (by simp)
      obtain ⟨houtcome, harrived, hrest⟩ := (E.process_awaits link.server hcarried).arrived
        (E.process_send link.server hcarried) hwhole hprocess
      exact ⟨call, calls, rfl, houtcome, harrived, hrest⟩

/-- The client has no outcome but that of the oldest call that is out, as a whole. -/
theorem recv_arrived {call : Call} {outcome : Outcome} {rest : Bytes}
    (horder : Pipeline.InOrder E link.whole (.take call))
    (hflight : InFlight E origin link.whole done served waiting)
    (hrecv : E.recv call link.toClient.arrived = .ok (outcome, rest)) :
    ∃ oldest calls, served = oldest :: calls ∧ E.recv call = E.recv oldest ∧
      outcome = (E.answer (E.after origin done) oldest).1 ∧
      link.toClient.arrived = E.reply (E.after origin done) oldest ++ rest ∧
      rest ++ link.toClient.underWay = E.replies (E.after origin (done ++ [oldest])) calls := by
  have hwhole : link.toClient.arrived ++ link.toClient.underWay =
      E.replies (E.after origin done) served := hflight.toClient
  cases served with
  | nil =>
      rw [(List.append_eq_nil_iff.mp hwhole).1] at hrecv
      exact absurd hrecv (E.recv_nil call _)
  | cons oldest calls =>
      have hsame := recv_oldest horder hflight
      have hcarried := hflight.out_carried oldest List.mem_cons_self
      rw [hsame] at hrecv
      obtain ⟨houtcome, harrived, hrest⟩ :=
        (E.recv_awaits (E.after origin done) hcarried).arrived
          (E.recv_reply (E.after origin done) hcarried) hwhole hrecv
      refine ⟨oldest, calls, rfl, hsame, houtcome, harrived, ?_⟩
      rw [E.after_append]
      exact hrest

/-- The server acts exactly when the oldest call is there as a whole. -/
theorem serve_isSome_iff (hflight : InFlight E origin link.whole done served waiting) :
    (step E link (.act .serve)).isSome ↔
      ∃ call calls, waiting = call :: calls ∧ E.send call <+: link.toServer.arrived := by
  constructor
  · intro hserve
    cases hprocess : E.process link.server link.toServer.arrived with
    | error failure => simp [step, hprocess] at hserve
    | ok outcome =>
        obtain ⟨call, calls, hwaiting, -, harrived, -⟩ := process_arrived hflight hprocess
        exact ⟨call, calls, hwaiting, outcome.2, harrived.symm⟩
  · rintro ⟨call, calls, rfl, rest, harrived⟩
    have hcarried := hflight.out_carried call (by simp)
    simp only [step, ← harrived, E.process_send link.server hcarried rest, Option.isSome_some]

/-- The client acts exactly when the oldest answer is there as a whole. -/
theorem take_isSome_iff {call : Call} (horder : Pipeline.InOrder E link.whole (.take call))
    (hflight : InFlight E origin link.whole done served waiting) :
    (step E link (.act (.take call))).isSome ↔
      ∃ oldest calls, served = oldest :: calls ∧
        E.reply (E.after origin done) oldest <+: link.toClient.arrived := by
  constructor
  · intro htake
    cases hrecv : E.recv call link.toClient.arrived with
    | error failure => simp [step, hrecv] at htake
    | ok outcome =>
        obtain ⟨oldest, calls, hserved, -, -, harrived, -⟩ := recv_arrived horder hflight hrecv
        exact ⟨oldest, calls, hserved, outcome.2, harrived.symm⟩
  · rintro ⟨oldest, calls, rfl, rest, harrived⟩
    have hcarried := hflight.out_carried oldest List.mem_cons_self
    simp only [step, recv_oldest horder hflight, ← harrived,
      E.recv_reply (E.after origin done) hcarried rest, Option.isSome_some]

theorem serve_whole (hflight : InFlight E origin link.whole done served waiting)
    (hstep : step E link (.act .serve) = some next) :
    Pipeline.step E link.whole .serve = some next.whole := by
  cases hprocess : E.process link.server link.toServer.arrived with
  | error failure => simp [step, hprocess] at hstep
  | ok outcome =>
      obtain ⟨outcome, rest⟩ := outcome
      obtain ⟨call, calls, rfl, rfl, -, hrest⟩ := process_arrived hflight hprocess
      simp only [step, hprocess, Option.some.injEq] at hstep
      subst hstep
      have hwaiting : E.process link.whole.server link.whole.toServer =
          .ok ((E.reply link.server call, (E.answer link.server call).2), E.sends calls) :=
        process_waiting hflight
      simp only [Pipeline.step, hwaiting, ← hrest]
      rw [Link.whole, Link.whole, Stream.whole_push]
      rfl

theorem take_whole {call : Call} (horder : Pipeline.InOrder E link.whole (.take call))
    (hflight : InFlight E origin link.whole done served waiting)
    (hstep : step E link (.act (.take call)) = some next) :
    Pipeline.step E link.whole (.take call) = some next.whole := by
  cases hrecv : E.recv call link.toClient.arrived with
  | error failure => simp [step, hrecv] at hstep
  | ok outcome =>
      obtain ⟨outcome, rest⟩ := outcome
      obtain ⟨oldest, calls, rfl, hsame, rfl, -, hrest⟩ := recv_arrived horder hflight hrecv
      simp only [step, hrecv, Option.some.injEq] at hstep
      subst hstep
      have hserved : E.recv oldest link.whole.toClient =
          .ok ((E.answer (E.after origin done) oldest).1,
            E.replies (E.after origin (done ++ [oldest])) calls) :=
        recv_served hflight
      simp only [Pipeline.step, hsame, hserved, ← hrest]
      rfl

theorem act_whole {event : Pipeline.Event Call} (hordered : Ordered E origin link.whole)
    (horder : Pipeline.InOrder E link.whole event)
    (hstep : step E link (.act event) = some next) :
    Pipeline.step E link.whole event = some next.whole := by
  obtain ⟨done, served, waiting, hflight⟩ := hordered
  cases event with
  | send call =>
      cases hstep
      rw [Pipeline.step, Link.whole, Link.whole, Stream.whole_push]
  | serve => exact serve_whole hflight hstep
  | take call => exact take_whole horder hflight hstep

/-- What is under way arrives without either end seeing it. -/
theorem arrive_whole {event : Event Call} (hevent : event.atEnd = none)
    (hstep : step E link event = some next) : next.whole = link.whole := by
  cases event with
  | act event => cases hevent
  | arriveServer count =>
      cases hstep
      simp only [Link.whole, Stream.whole_arrive]
  | arriveClient count =>
      cases hstep
      simp only [Link.whole, Stream.whole_arrive]

/-! ## Runs -/

variable (E origin) in
/-- The state that a link has, its bytes apart, with nothing out of its order. -/
def Shows (link : Link Call Outcome Server) (image : State Call Outcome Server) : Prop :=
  link.whole = image ∧ Ordered E origin image

theorem arrive_shows {event : Event Call} {image : State Call Outcome Server}
    (hshows : Shows E origin link image) (hevent : event.atEnd = none)
    (hstep : step E link event = some next) : Shows E origin next image :=
  ⟨(arrive_whole hevent hstep).trans hshows.1, hshows.2⟩

theorem act_shows {event : Event Call} {image : State Call Outcome Server}
    {shown : Pipeline.Event Call} (hshows : Shows E origin link image)
    (horder : InOrder E link event) (hevent : event.atEnd = some shown)
    (hstep : step E link event = some next) :
    Pipeline.InOrder E image shown ∧
      ∃ after, Pipeline.step E image shown = some after ∧ Shows E origin next after := by
  obtain ⟨rfl, hlink⟩ := hshows
  have hshown := horder shown hevent
  cases event with
  | act event =>
      cases hevent
      have hnext := act_whole hlink hshown hstep
      exact ⟨hshown, next.whole, hnext, rfl, step_ordered hlink hshown hnext⟩
  | arriveServer | arriveClient => cases hevent

/-- A run does what the ends would do if all bytes arrived at once. -/
theorem run_whole {events : List (Event Call)} {final : Link Call Outcome Server}
    (hordered : Ordered E origin link.whole)
    (hlegal : EachStep (step E) (InOrder E) link events)
    (hrun : run (step E) link events = some final) :
    EachStep (Pipeline.step E) (Pipeline.InOrder E) link.whole
        (events.filterMap Event.atEnd) ∧
      run (Pipeline.step E) link.whole (events.filterMap Event.atEnd) = some final.whole ∧
      Ordered E origin final.whole := by
  have hstart : Shows E origin link link.whole := ⟨rfl, hordered⟩
  obtain ⟨heach, after, hafter, rfl, hfinal⟩ :=
    run_stuttered arrive_shows act_shows hstart hlegal hrun
  exact ⟨heach, hafter, hfinal⟩

/-! ## When nothing is kept back -/

namespace Link

/-- The link with all of its bytes there. -/
def settled (link : Link Call Outcome Server) : Link Call Outcome Server :=
  { link with toServer := ⟨link.toServer.whole, []⟩, toClient := ⟨link.toClient.whole, []⟩ }

@[simp]
theorem whole_settled (link : Link Call Outcome Server) : link.settled.whole = link.whole := by
  simp only [whole, settled, Stream.whole_there]

end Link

theorem run_settle (link : Link Call Outcome Server) :
    ∃ events, EachStep (step E) (InOrder E) link events ∧
      run (step E) link events = some link.settled ∧ events.filterMap Event.atEnd = [] := by
  refine ⟨[.arriveServer link.toServer.underWay.length,
    .arriveClient link.toClient.underWay.length], ?_, ?_, rfl⟩
  · refine EachStep.of_mem (fun event hmem link => ?_) link
    rintro shown hshown
    simp only [List.mem_cons, List.not_mem_nil, or_false] at hmem
    rcases hmem with rfl | rfl <;> cases hshown
  · simp only [run, step, Option.bind_some, Stream.arrive, List.take_length, List.drop_length]
    rfl

/-- With all bytes there, an end does what it does on the whole streams. -/
theorem act_settled {event : Pipeline.Event Call} {after : State Call Outcome Server}
    (hstep : Pipeline.step E link.whole event = some after) :
    ∃ next, step E link.settled (.act event) = some next ∧ next.whole = after := by
  cases event with
  | send call =>
      cases hstep
      refine ⟨_, rfl, ?_⟩
      simp only [Link.whole, Link.settled, Stream.whole_push, Stream.whole_there]
  | serve =>
      cases hprocess : E.process link.server link.toServer.whole with
      | error failure => simp [Pipeline.step, Link.whole, hprocess] at hstep
      | ok outcome =>
          simp only [Pipeline.step, Link.whole, hprocess, Option.some.injEq] at hstep
          subst hstep
          simp only [step, Link.settled, hprocess]
          refine ⟨_, rfl, ?_⟩
          simp only [Link.whole, Stream.whole_push, Stream.whole_there]
  | take call =>
      cases hrecv : E.recv call link.toClient.whole with
      | error failure => simp [Pipeline.step, Link.whole, hrecv] at hstep
      | ok outcome =>
          simp only [Pipeline.step, Link.whole, hrecv, Option.some.injEq] at hstep
          subst hstep
          simp only [step, Link.settled, hrecv]
          refine ⟨_, rfl, ?_⟩
          simp only [Link.whole, Stream.whole_there]

/-- Whatever the ends can do on the whole streams they can do once the bytes are there. -/
theorem run_lifted {events : List (Pipeline.Event Call)} {after : State Call Outcome Server}
    (hlegal : EachStep (Pipeline.step E) (Pipeline.InOrder E) link.whole events)
    (hrun : run (Pipeline.step E) link.whole events = some after) :
    ∃ more final, EachStep (step E) (InOrder E) link more ∧
      run (step E) link more = some final ∧ final.whole = after ∧
      more.filterMap Event.atEnd = events := by
  induction events generalizing link with
  | nil =>
      cases hrun
      exact ⟨[], link, trivial, rfl, rfl, rfl⟩
  | cons event events ih =>
      cases hnext : Pipeline.step E link.whole event with
      | none => simp [run_cons, hnext] at hrun
      | some reached =>
          rw [run_cons_of_step _ hnext] at hrun
          obtain ⟨arrivals, harrivals, hsettle, hsilent⟩ := run_settle (E := E) link
          obtain ⟨next, hact, rfl⟩ := act_settled hnext
          obtain ⟨more, final, hmore, hfinal, hafter, hshown⟩ :=
            ih (hlegal.2 next.whole hnext) hrun
          refine ⟨arrivals ++ .act event :: more, final, ?_, ?_, hafter, ?_⟩
          · refine harrivals.append hsettle ⟨?_, fun other hother => ?_⟩
            · rintro shown hevent
              cases hevent
              rw [Link.whole_settled]
              exact hlegal.1
            · rw [hact, Option.some.injEq] at hother
              exact hother ▸ hmore
          · rw [run_append, hsettle, Option.bind_some, run_cons_of_step _ hact, hfinal]
          · have hact : (Event.act event).atEnd = some event := rfl
            rw [List.filterMap_append, hsilent, List.nil_append,
              List.filterMap_cons_some hact, hshown]

end PdoCassandra.Foundation.Arrival
