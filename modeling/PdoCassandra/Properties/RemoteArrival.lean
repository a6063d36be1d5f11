import PdoCassandra.Foundation.Arrival
import PdoCassandra.Properties.RemoteCalls

/-!
# Calls in pieces

The bytes of calls and answers arrive in pieces of any size.  Neither end acts on a
message before its last byte is there, so that the pieces change nothing of what the
handler does and of what the client has.
-/

namespace PdoCassandra.Properties.RemoteArrival

open PdoCassandra.Foundation
open PdoCassandra.Foundation.CString
open PdoCassandra.Foundation.Arrival
open PdoCassandra.Foundation.Pipeline (Exchange InFlight Ordered)
open PdoCassandra.Foundation.Rpc
open PdoCassandra.Foundation.Transition
open PdoCassandra.Foundation.Wire
open PdoCassandra.Properties.RemoteCalls
open PdoCassandra.Thrift
open PdoCassandra.Thrift.Rpc
open PdoCassandra.Thrift.Session

variable (R : Runtime) {Server : Type} (iface : Iface Server) (others : ProcessMap Server)
  (origin : Server)

/-- The machine of a client and the processor, with the bytes between them. -/
abbrev linked := step (exchange R iface others)

abbrev Idle : Link Call (Except TException Value) Server := { server := origin }

/-- The calls of a run, and the outcomes, as the ends have them in order. -/
abbrev Legal (events : List (Event Call)) : Prop :=
  EachStep (linked R iface others) (InOrder (exchange R iface others)) (Idle origin) events

theorem idle_ordered : Ordered (exchange R iface others) origin (Idle origin).whole :=
  Pipeline.ordered_start origin

/--
However the bytes arrive, both ends do what they do when a message arrives at once, and
the client has the answers to the first of its calls.  Nor does it keep the ends from
anything: what they do next when messages arrive at once they can do here.
-/
theorem pieces_refine {events : List (Event Call)}
    {final : Link Call (Except TException Value) Server}
    (hlegal : Legal R iface others origin events)
    (hrun : run (linked R iface others) (Idle origin) events = some final) :
    run (machine R iface others) (Fresh origin) (events.filterMap Event.atEnd) =
        some final.whole ∧
      final.taken =
        (exchange R iface others).answers origin (final.sent.take final.taken.length) ∧
      (∃ count, final.taken.length ≤ count ∧ count ≤ final.sent.length ∧
        final.server = (exchange R iface others).after origin (final.sent.take count)) ∧
      ∀ acts after, EachStep (machine R iface others)
          (Pipeline.InOrder (exchange R iface others)) final.whole acts →
        run (machine R iface others) final.whole acts = some after →
        ∃ more finished,
          EachStep (linked R iface others) (InOrder (exchange R iface others)) final more ∧
            run (linked R iface others) final more = some finished ∧
            finished.whole = after ∧ more.filterMap Event.atEnd = acts := by
  obtain ⟨-, hwhole, hordered⟩ :=
    run_whole (idle_ordered R iface others origin) hlegal hrun
  obtain ⟨htaken, hserver⟩ := inFlight_answers R iface others origin hordered
  exact ⟨hwhole, htaken, hserver, fun acts after hacts hafter => run_lifted hacts hafter⟩

/-- A query, of which five bytes have arrived. -/
def cutQuery : List (Event Call) := [.act (.send (query ([97], 2))), .arriveServer 5]

def cutLink : Link Call (Except TException Value) Bytes :=
  { server := []
    toServer := ⟨(send binary (query ([97], 2))).take 5, (send binary (query ([97], 2))).drop 5⟩
    sent := [query ([97], 2)] }

theorem cutQuery_legal : Legal binary plainIface noOthers [] cutQuery := by
  refine ⟨?_, fun sent _ => ⟨?_, fun _ _ => trivial⟩⟩
  · rintro shown hshown
    cases hshown
    exact query_carried binary _ (twoTexts_short _ List.mem_cons_self)
  · rintro shown hshown
    cases hshown

theorem cutQuery_run :
    run (linked binary plainIface noOthers) (Idle []) cutQuery = some cutLink := rfl

theorem pieces_refine_cut :
    run (machine binary plainIface noOthers) (Fresh []) [.send (query ([97], 2))] =
      some cutLink.whole :=
  (pieces_refine binary plainIface noOthers [] cutQuery_legal cutQuery_run).1

/-- Both ends act exactly when the oldest message is there as a whole. -/
theorem whole_messages_only {events : List (Event Call)}
    {final : Link Call (Except TException Value) Server}
    (hlegal : Legal R iface others origin events)
    (hrun : run (linked R iface others) (Idle origin) events = some final) :
    ∃ done served waiting, final.sent = done ++ (served ++ waiting) ∧
      done.length = final.taken.length ∧
      final.server = (exchange R iface others).after origin (done ++ served) ∧
      ((linked R iface others final (.act .serve)).isSome ↔
        ∃ call calls, waiting = call :: calls ∧ send R call <+: final.toServer.arrived) ∧
      ∀ call, InOrder (exchange R iface others) final (.act (.take call)) →
        ((linked R iface others final (.act (.take call))).isSome ↔
          ∃ oldest calls, served = oldest :: calls ∧
            replyTo R iface ((exchange R iface others).after origin done) oldest <+:
              final.toClient.arrived) := by
  obtain ⟨-, -, done, served, waiting, hflight⟩ :=
    run_whole (idle_ordered R iface others origin) hlegal hrun
  refine ⟨done, served, waiting, hflight.sent, hflight.length_taken.symm, hflight.server,
    serve_isSome_iff hflight, fun call horder => ?_⟩
  exact take_isSome_iff (horder _ rfl) hflight

/-- The beginning of a query does not get the processor to act. -/
theorem whole_messages_only_cut :
    linked binary plainIface noOthers cutLink (.act .serve) = none := by
  obtain ⟨done, served, waiting, hsent, -, -, hserve, -⟩ :=
    whole_messages_only binary plainIface noOthers [] cutQuery_legal cutQuery_run
  rw [← Option.not_isSome_iff_eq_none, hserve]
  rintro ⟨call, calls, rfl, harrived⟩
  have hmem : call ∈ cutLink.sent := by
    rw [hsent]
    simp
  obtain rfl : call = query ([97], 2) := List.mem_singleton.mp hmem
  have hlength : (send binary (query ([97], 2))).length ≤ 5 :=
    Nat.le_trans harrived.length_le (List.length_take_le 5 _)
  have hlong : 5 < (send binary (query ([97], 2))).length := by decide
  exact Nat.lt_irrefl _ (Nat.lt_of_lt_of_le hlong hlength)

end PdoCassandra.Properties.RemoteArrival
