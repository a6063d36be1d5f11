import Mathlib.Data.List.Forall2
import Mathlib.Logic.Function.Basic

/-!
# Runs of a deterministic partial machine

`step s e` is the state after event `e`, or `none` when the machine does not
survive it.  A property of states is followed along a run from a condition on
the events, each taken at the state in which it happens.
-/

namespace PdoCassandra.Foundation.Transition

variable {State Event : Type} (step : State → Event → Option State)

/-- The state after a list of events. -/
def run : State → List Event → Option State
  | start, [] => some start
  | start, event :: events => (step start event).bind fun next => run next events

@[simp]
theorem run_nil (start : State) : run step start [] = some start := rfl

theorem run_cons (start : State) (event : Event) (events : List Event) :
    run step start (event :: events) =
      (step start event).bind fun next => run step next events := rfl

theorem run_cons_of_step {start next : State} {event : Event}
    (hstep : step start event = some next) (events : List Event) :
    run step start (event :: events) = run step next events := by
  rw [run_cons, hstep, Option.bind_some]

theorem run_append (start : State) (first second : List Event) :
    run step start (first ++ second) =
      (run step start first).bind fun middle => run step middle second := by
  induction first generalizing start with
  | nil => rfl
  | cons event events ih =>
      rw [List.cons_append, run_cons, run_cons, Option.bind_assoc]
      exact Option.bind_congr fun next _ => ih next

/-- `Holds` is true of every event of the run, at the state it meets. -/
def EachStep (Holds : State → Event → Prop) : State → List Event → Prop
  | _, [] => True
  | start, event :: events =>
      Holds start event ∧
        ∀ next, step start event = some next → EachStep Holds next events

/-- `Inv` is true of every state of the run, the first one included. -/
def EachState (Inv : State → Prop) : State → List Event → Prop
  | start, [] => Inv start
  | start, event :: events =>
      Inv start ∧
        ∀ next, step start event = some next → EachState Inv next events

variable {step}

theorem EachState.start {Inv : State → Prop} {start : State}
    {events : List Event} (hall : EachState step Inv start events) :
    Inv start := by
  cases events with
  | nil => exact hall
  | cons event events => exact hall.1

theorem EachStep.of_forall {Holds : State → Event → Prop}
    (hall : ∀ state event, Holds state event) (start : State) (events : List Event) :
    EachStep step Holds start events := by
  induction events generalizing start with
  | nil => trivial
  | cons event events ih => exact ⟨hall start event, fun next _ => ih next⟩

theorem EachStep.of_mem {Holds : State → Event → Prop} {events : List Event}
    (hall : ∀ event ∈ events, ∀ state, Holds state event) (start : State) :
    EachStep step Holds start events := by
  induction events generalizing start with
  | nil => trivial
  | cons event events ih =>
      refine ⟨hall event List.mem_cons_self start, fun next _ => ?_⟩
      exact ih (fun other hmem => hall other (List.mem_cons_of_mem _ hmem)) next

theorem EachStep.append {Holds : State → Event → Prop} {start middle : State}
    {first second : List Event} (hfirst : EachStep step Holds start first)
    (hrun : run step start first = some middle) (hsecond : EachStep step Holds middle second) :
    EachStep step Holds start (first ++ second) := by
  induction first generalizing start with
  | nil =>
      cases hrun
      exact hsecond
  | cons event events ih =>
      refine ⟨hfirst.1, fun next hnext => ih (hfirst.2 next hnext) ?_⟩
      rwa [run_cons_of_step step hnext] at hrun

/-- An invariant of the final state of a run, from an invariant of each step. -/
theorem run_invariant {Inv : State → Prop} {Holds : State → Event → Prop}
    (hstep : ∀ {state event next}, Inv state → Holds state event →
      step state event = some next → Inv next)
    {start final : State} {events : List Event} (hstart : Inv start)
    (hall : EachStep step Holds start events)
    (hrun : run step start events = some final) : Inv final := by
  induction events generalizing start with
  | nil =>
      cases hrun
      exact hstart
  | cons event events ih =>
      cases hnext : step start event with
      | none => simp [run_cons, hnext] at hrun
      | some next =>
          rw [run_cons_of_step step hnext] at hrun
          exact ih (hstep hstart hall.1 hnext) (hall.2 next hnext) hrun

/--
When each step is matched by a step of another machine or by none, so is a run; what
the matching steps are held to is held to along the run.
-/
theorem run_stuttered {Shadow Label : Type} {shadow : Shadow → Label → Option Shadow}
    {Related : State → Shadow → Prop} {Holds : State → Event → Prop}
    {Kept : Shadow → Label → Prop} {label : Event → Option Label}
    (hsilent : ∀ {state event next image}, Related state image → label event = none →
      step state event = some next → Related next image)
    (hstep : ∀ {state event next image shown}, Related state image → Holds state event →
      label event = some shown → step state event = some next →
      Kept image shown ∧ ∃ after, shadow image shown = some after ∧ Related next after)
    {start final : State} {events : List Event} {image : Shadow}
    (hstart : Related start image) (hall : EachStep step Holds start events)
    (hrun : run step start events = some final) :
    EachStep shadow Kept image (events.filterMap label) ∧
      ∃ after, run shadow image (events.filterMap label) = some after ∧
        Related final after := by
  induction events generalizing start image with
  | nil =>
      cases hrun
      exact ⟨trivial, image, rfl, hstart⟩
  | cons event events ih =>
      cases hnext : step start event with
      | none => simp [run_cons, hnext] at hrun
      | some next =>
          rw [run_cons_of_step step hnext] at hrun
          cases hlabel : label event with
          | none =>
              rw [List.filterMap_cons_none hlabel]
              exact ih (hsilent hstart hlabel hnext) (hall.2 next hnext) hrun
          | some shown =>
              rw [List.filterMap_cons_some hlabel]
              obtain ⟨hkept, middle, hshadow, hrelated⟩ := hstep hstart hall.1 hlabel hnext
              obtain ⟨heach, after, hafter, hfinal⟩ := ih hrelated (hall.2 next hnext) hrun
              refine ⟨⟨hkept, fun reached hreached => ?_⟩, after, ?_, hfinal⟩
              · rw [hshadow, Option.some.injEq] at hreached
                exact hreached ▸ heach
              · rw [run_cons_of_step shadow hshadow, hafter]

/-- An invariant that every step keeps. -/
theorem run_preserves {Inv : State → Prop}
    (hstep : ∀ {state event next}, Inv state → step state event = some next → Inv next)
    {start final : State} {events : List Event} (hstart : Inv start)
    (hrun : run step start events = some final) : Inv final := by
  have hall : EachStep step (fun _ _ => True) start events :=
    EachStep.of_forall (fun _ _ => trivial) start events
  exact run_invariant (fun hinv _ hnext => hstep hinv hnext) hstart hall hrun

/-- What steps can add and never take away comes from one of the steps, or was there. -/
theorem run_adds {Inv Has : State → Prop} {Adds : State → Event → Prop}
    (hkeeps : ∀ {state event next}, Inv state → step state event = some next → Inv next)
    (hadds : ∀ {state event next}, Inv state → step state event = some next →
      (Has next ↔ Has state ∨ Adds state event))
    {start final : State} {events : List Event} (hstart : Inv start)
    (hrun : run step start events = some final) :
    Has final ↔ Has start ∨ ∃ before event behind middle,
      events = before ++ event :: behind ∧ run step start before = some middle ∧
        Adds middle event := by
  induction events generalizing start with
  | nil =>
      cases hrun
      simp
  | cons event events ih =>
      cases hnext : step start event with
      | none => simp [run_cons, hnext] at hrun
      | some next =>
          rw [run_cons_of_step step hnext] at hrun
          rw [ih (hkeeps hstart hnext) hrun, hadds hstart hnext, or_assoc]
          refine or_congr Iff.rfl ⟨?_, ?_⟩
          · rintro (hevent | ⟨before, later, behind, middle, rfl, hbefore, hlater⟩)
            · exact ⟨[], event, events, start, rfl, rfl, hevent⟩
            · refine ⟨event :: before, later, behind, middle, rfl, ?_, hlater⟩
              rwa [run_cons_of_step step hnext]
          · rintro ⟨before, later, behind, middle, hsplit, hbefore, hlater⟩
            cases before with
            | nil =>
                cases hsplit
                cases hbefore
                exact Or.inl hlater
            | cons first before =>
                cases hsplit
                rw [run_cons_of_step step hnext] at hbefore
                exact Or.inr ⟨before, later, behind, middle, rfl, hbefore, hlater⟩

/--
When a condition decides of each step whether it keeps the invariant, it decides
of a run whether the invariant holds throughout.
-/
theorem eachState_iff_eachStep {Inv : State → Prop}
    {Keeps : State → Event → Prop}
    (hstep : ∀ {state event next}, Inv state → step state event = some next →
      (Inv next ↔ Keeps state event))
    (hend : ∀ {state event}, step state event = none → Keeps state event)
    {start : State} {events : List Event} (hstart : Inv start) :
    EachState step Inv start events ↔ EachStep step Keeps start events := by
  induction events generalizing start with
  | nil => exact iff_of_true hstart trivial
  | cons event events ih =>
      cases hnext : step start event with
      | none => simp [EachState, EachStep, hnext, hstart, hend hnext]
      | some next =>
          simp only [EachState, EachStep, hnext, hstart, true_and,
            Option.some.injEq, forall_eq']
          constructor
          · intro hrest
            exact ⟨(hstep hstart hnext).mp hrest.start, (ih hrest.start).mp hrest⟩
          · rintro ⟨hkeeps, hrest⟩
            exact (ih ((hstep hstart hnext).mpr hkeeps)).mpr hrest

/-- Conditions that agree under an invariant agree along a run that keeps it. -/
theorem eachStep_congr {Inv : State → Prop} {Legal First Second : State → Event → Prop}
    (hstep : ∀ {state event next}, Inv state → Legal state event →
      step state event = some next → Inv next)
    (hiff : ∀ {state event}, Inv state → Legal state event →
      (First state event ↔ Second state event))
    {start : State} {events : List Event} (hstart : Inv start)
    (hlegal : EachStep step Legal start events) :
    EachStep step First start events ↔ EachStep step Second start events := by
  induction events generalizing start with
  | nil => exact Iff.rfl
  | cons event events ih =>
      refine and_congr (hiff hstart hlegal.1) (forall₂_congr fun next hnext => ?_)
      exact ih (hstep hstart hlegal.1 hnext) (hlegal.2 next hnext)

end PdoCassandra.Foundation.Transition
